import ShellCompletion.Number.Basic

/-! Untyped values of documents, and when two of them are the same key. -/

namespace ShellCompletion

/-- A value whose type is found from how it is written. Mappings keep the order of their entries. A tag is kept as
    it is written. -/
inductive Value where
  | null
  | bool (value : Bool)
  | number (value : Number)
  | string (value : Text)
  | sequence (items : List Value)
  | mapping (entries : List (Value × Value))
  | tagged (tag : Text) (value : Value)
deriving Repr

namespace Value

/-- A tag without its leading exclamation mark; the mark alone is a tag of its own. -/
def bareTag (tag : Text) : Text :=
  match tag with
  | '!' :: c :: t => c :: t
  | t => t

mutual

/-- Equality of values. Mappings are equal if they hold the same entries in any order. -/
def same : Value → Value → Bool
  | null, null => true
  | bool a, bool b => a == b
  | number a, number b => a.same b
  | string a, string b => a == b
  | sequence xs, sequence ys => sameItems xs ys
  | mapping xs, mapping ys => xs.length == ys.length && entriesIn xs ys
  | tagged a x, tagged b y => bareTag a == bareTag b && same x y
  | _, _ => false

def sameItems : List Value → List Value → Bool
  | [], [] => true
  | x :: xs, y :: ys => same x y && sameItems xs ys
  | _, _ => false

/-- Does each entry of the first list stand in the second? -/
def entriesIn : List (Value × Value) → List (Value × Value) → Bool
  | [], _ => true
  | (k, v) :: xs, ys => (ys.any fun (l, w) => same k l && same v w) && entriesIn xs ys

end

/-- The value without its tags. -/
def untagged : Value → Value
  | tagged _ v => v.untagged
  | v => v

/-- Is a key the same as one of the keys before it? -/
def hasRepeatedKey : List Value → List (Value × Value) → Bool
  | _, [] => false
  | seen, (k, _) :: entries => seen.any (same · k) || hasRepeatedKey (k :: seen) entries

/-- A mapping with these entries, unless a key stands twice. -/
def mapping? (entries : List (Value × Value)) : Option Value :=
  if hasRepeatedKey [] entries then none else some (mapping entries)

end Value
end ShellCompletion

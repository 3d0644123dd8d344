import ShellCompletion.Yaml.Scalar.Writing

/-! Untyped values as YAML texts, in block style throughout. What is written depends on the place: behind a mark
    that begins a line a collection goes on in that line, behind a key it begins a line of its own. The texts are those
    of `serde_yaml` and the emitter of `libyaml`, which also decides which keys are short. -/

namespace ShellCompletion.Yaml
namespace Writer
open Scalar

/-! ### Tags -/

/-- Characters of a tag that are written as they are. -/
def isPlainTagChar (c : Char) : Bool :=
  isWordChar c ||
    [';', '/', '?', ':', '@', '&', '=', '+', '$', ',', '.', '~', '*', '\'', '(', ')', '[', ']'].contains c

/-- Other characters of a tag are written as their bytes. -/
def tagChar (c : Char) : Text :=
  if isPlainTagChar c then [c] else (String.utf8EncodeChar c).flatMap fun b => ['%'] ++ hexDigits 2 b.toNat

/-- A tag behind its exclamation mark. -/
def markedTag (tag : Text) : Text :=
  let tag := Value.bareTag tag
  if tag.head? = some '!' then tag else '!' :: tag

/-- A tag as it is written. The mark alone has to be written out in full. -/
def tagText (tag : Text) : Text :=
  match markedTag tag with
  | '!' :: c :: t => '!' :: (c :: t).flatMap tagChar
  | t => ['!', '<'] ++ t.flatMap tagChar ++ ['>']

/-! ### Keys -/

/-- How much a value takes that is written in one line, if it is a scalar without breaks or an empty collection. -/
def lineSize? : Value → Option Nat
  | .null => some 4
  | .bool b => some (if b then 4 else 5)
  | .number n => some n.text.length
  | .string t => if t.any isBreak then none else some t.byteCount
  | .sequence [] | .mapping [] => some 0
  | .sequence (_ :: _) | .mapping (_ :: _) => none
  | .tagged tag v => (lineSize? v).map ((markedTag tag).byteCount + ·)

/-- How much a key may take that is written without a mark of its own. -/
def keyLimit : Nat := 128

def isShortKey (v : Value) : Bool := (lineSize? v).any (· ≤ keyLimit)

/-! ### Places -/

/-- Where a value is written. The column is the one in which its surroundings begin their lines. -/
inductive Place where
  | document
  /-- Behind the mark of an item. -/
  | item (column : Nat)
  /-- Behind the mark of a long key, or of its value. -/
  | entry (column : Nat)
  /-- Behind a short key. -/
  | value (column : Nat)
  /-- At the beginning of a line. -/
  | key (column : Nat)

namespace Place

/-- What comes before the first sign of a value. -/
def gap : Place → Text
  | document | key _ => []
  | item _ | entry _ | value _ => [' ']

/-- The column of a mapping, and of the lines that a scalar continues on. -/
def inner : Place → Nat
  | document => 0
  | item column | entry column | value column | key column => column + 2

/-- The column of the lines that a scalar continues on. -/
def scalarColumn : Place → Nat
  | document => 2
  | place => place.inner

/-- The column of a sequence. Behind a key it is not indented, unless it goes on in the same line. -/
def sequenceColumn (tag : Option Text) : Place → Nat
  | value column => column
  | entry column => if tag.isSome then column else column + 2
  | place => place.inner

/-- What leads to the first item or entry of a collection that begins in `column`. -/
def opening (tag : Option Text) (column : Nat) (place : Place) : Text :=
  match tag, place with
  | some t, _ => place.gap ++ tagText t ++ ['\n'] ++ spaces column
  | none, value _ => ['\n'] ++ spaces column
  | none, _ => place.gap

/-- A value that takes no lines of its own. -/
def atom (tag : Option Text) (place : Place) (text : Text) : Text :=
  place.gap ++ (tag.elim [] fun t => tagText t ++ [' ']) ++ text

end Place

/-- The text with a new line begun behind it, unless a block has done so. -/
def newLine (column : Nat) (t : Text) : Text :=
  t ++ (if t.getLast?.any isBreak then [] else ['\n']) ++ spaces column

/-! ### Values -/

mutual

/-- A value in its place, behind a tag. -/
def text (tag : Option Text) (place : Place) : Value → Text
  | .null => place.atom tag "null".toList
  | .bool true => place.atom tag "true".toList
  | .bool false => place.atom tag "false".toList
  | .number n => place.atom tag n.text
  | .string t => place.atom tag (stringText place.scalarColumn t)
  | .sequence [] => place.atom tag "[]".toList
  | .mapping [] => place.atom tag ['\x7b', '\x7d']
  | .sequence (v :: vs) =>
    let column := place.sequenceColumn tag
    place.opening tag column ++ itemTexts column (v :: vs)
  | .mapping (e :: es) => place.opening tag place.inner ++ entryTexts place.inner (e :: es)
  | .tagged t v => text (some t) place v

def itemTexts (column : Nat) : List Value → Text
  | [] => []
  | [v] => ['-'] ++ text none (.item column) v
  | v :: w :: vs => newLine column (['-'] ++ text none (.item column) v) ++ itemTexts column (w :: vs)

/-- An entry with a short key takes one line if its value does; a long key and its value have a mark each. -/
def entryText (column : Nat) : Value × Value → Text
  | (k, v) =>
    if isShortKey k then text none (.key column) k ++ [':'] ++ text none (.value column) v
    else newLine column (['?'] ++ text none (.entry column) k) ++ [':'] ++ text none (.entry column) v

def entryTexts (column : Nat) : List (Value × Value) → Text
  | [] => []
  | [e] => entryText column e
  | e :: f :: es => newLine column (entryText column e) ++ entryTexts column (f :: es)

end

/-! ### What cannot be written

A mapping with one entry and no tag has the form of a tagged value. So no such mapping is written whose key has that
form itself. -/

/-- A tagged value, or what looks like one. -/
def looksTagged : Value → Bool
  | .tagged .. | .mapping [_] => true
  | _ => false

mutual

def isWritable : Value → Bool
  | .sequence items => areWritable items
  | .mapping entries =>
    (match entries with
      | [(k, _)] => !looksTagged k
      | _ => true) && entriesAreWritable entries
  | .tagged _ v => isContentWritable v
  | _ => true

/-- Is a value writable behind a tag? There it is clear what a mapping with one entry is. -/
def isContentWritable : Value → Bool
  | .sequence items => areWritable items
  | .mapping entries => entriesAreWritable entries
  | .tagged .. => false
  | _ => true

def areWritable : List Value → Bool
  | [] => true
  | v :: vs => isWritable v && areWritable vs

def entriesAreWritable : List (Value × Value) → Bool
  | [] => true
  | (k, v) :: es => isWritable k && isWritable v && entriesAreWritable es

end
end Writer

/-- The text of a value. -/
def write? (v : Value) : Option Text :=
  if Writer.isWritable v then some (Writer.text none .document v) else none

end ShellCompletion.Yaml

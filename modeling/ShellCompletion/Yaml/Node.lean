import ShellCompletion.Yaml.Tree

/-! YAML documents with all references replaced by what they refer to. The limits are those of `serde_yaml`, on the
    collections that are open at once and on the references that are followed. What `serde_yaml` reads from its events
    on demand is assumed to depend on the document in this form alone. -/

namespace ShellCompletion.Yaml

inductive Node where
  | scalar (tag : Option Text) (style : ScalarStyle) (text : Text)
  | sequence (tag : Option Text) (items : List Node)
  | mapping (tag : Option Text) (entries : List (Node × Node))
deriving Repr

namespace Node

mutual

def decEq : (m n : Node) → Decidable (m = n)
  | scalar tag style text, scalar tag' style' text' =>
    decidable_of_iff (tag = tag' ∧ style = style' ∧ text = text') (by simp)
  | sequence tag items, sequence tag' items' =>
    have := decEqItems items items'
    decidable_of_iff (tag = tag' ∧ items = items') (by simp)
  | mapping tag entries, mapping tag' entries' =>
    have := decEqEntries entries entries'
    decidable_of_iff (tag = tag' ∧ entries = entries') (by simp)
  | scalar .., sequence .. | scalar .., mapping .. | sequence .., scalar .. | sequence .., mapping ..
  | mapping .., scalar .. | mapping .., sequence .. => isFalse nofun

def decEqItems : (ms ns : List Node) → Decidable (ms = ns)
  | [], [] => isTrue rfl
  | m :: ms, n :: ns =>
    have := decEq m n
    have := decEqItems ms ns
    decidable_of_iff (m = n ∧ ms = ns) (by simp)
  | [], _ :: _ | _ :: _, [] => isFalse nofun

def decEqEntries : (ds es : List (Node × Node)) → Decidable (ds = es)
  | [], [] => isTrue rfl
  | (k, m) :: ds, (l, n) :: es =>
    have := decEq k l
    have := decEq m n
    have := decEqEntries ds es
    decidable_of_iff (k = l ∧ m = n ∧ ds = es) (by simp [and_assoc])
  | [], _ :: _ | _ :: _, [] => isFalse nofun

end

instance : DecidableEq Node := decEq

/-- How many collections may be open at once. -/
def levelLimit : Nat := 128

/-- How often references may be followed for each sign of a document. -/
def followLimit : Nat := 100

/-- The anchored nodes of a document, and how many references may be followed. -/
structure Anchors where
  nodes : List (Nat × Tree)
  limit : Nat

/-- A step of expanding a document; the state is how many references were followed. -/
abbrev Expand := StateT Nat Option

namespace Anchors

/-- The node that a number names is the last one to which it was given. -/
def find? (a : Anchors) (number : Nat) : Option Tree := a.nodes.reverse.lookup number

/-- The tree that a reference stands for. -/
def follow (a : Anchors) : Tree → Expand Tree
  | .reference number => fun followed =>
    if a.limit < followed + 1 then none else (a.find? number).map (·, followed + 1)
  | t => pure t

/-- The node of a tree, with at most so many collections inside one another. -/
def expand (a : Anchors) : Nat → Tree → Expand Node
  | 0, t => do
    match ← a.follow t with
    | .scalar p style text => return scalar p.tag style text
    | _ => fun _ => none
  | levels + 1, t => do
    match ← a.follow t with
    | .scalar p style text => return scalar p.tag style text
    | .sequence p items => return sequence p.tag (← items.mapM (a.expand levels))
    | .mapping p entries =>
      return mapping p.tag (← entries.mapM fun (k, v) => do return (← a.expand levels k, ← a.expand levels v))
    | .reference _ => fun _ => none

end Anchors

def ofTree? (t : Tree) : Option Node :=
  let anchors : Anchors := ⟨t.anchored, followLimit * t.size⟩
  ((anchors.expand levelLimit t).run 0).map (·.1)

/-- The document that a text denotes. -/
def ofText? (t : Text) : Option Node := do ofTree? (← Tree.ofTokens? (← tokens? t))

end Node
end ShellCompletion.Yaml

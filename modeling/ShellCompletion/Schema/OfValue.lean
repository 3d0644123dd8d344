import ShellCompletion.Schema.Source

/-! Models in untyped values. Tags do not matter where a type is expected, and null is an empty list or mapping, as when
    `serde_yaml` reads from such a value instead of a text. -/

namespace ShellCompletion.Value

def text? (v : Value) : Option Text :=
  match v.untagged with
  | string t => some t
  | _ => none

def bool? (v : Value) : Option Bool :=
  match v.untagged with
  | bool b => some b
  | _ => none

/-- Null stands for nothing. -/
def optional? : Value → Option (Option Value)
  | null => some none
  | v => some (some v)

def items? (v : Value) : Option (List Value) :=
  match v.untagged with
  | sequence items => some items
  | null => some []
  | _ => none

def entries? (v : Value) : Option (List (Value × Value)) :=
  match v.untagged with
  | mapping entries => some entries
  | null => some []
  | _ => none

def record? (names : List Text) (v : Value) : Option (List (Option Value)) := do
  let entries ← entries? v
  let fields ← entries.mapM fun (key, value) => do return (← text? key, value)
  Source.select? names fields

instance : Source Value where
  text? := text?
  bool? := bool?
  optional? := optional?
  items? := items?
  record? := record?
  value? := some
  entries? := entries?

end ShellCompletion.Value

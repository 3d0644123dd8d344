import ShellCompletion.Model.Command
import ShellCompletion.Value.Basic

/-! What a model can be read from. The schemas are written once against this interface, and each form of document
    says how its values are taken as texts, lists and records. -/

namespace ShellCompletion

/-- A form of document values. Each reading fails where the value is of another type. -/
class Source (α : Type) where
  text? : α → Option Text
  bool? : α → Option Bool
  /-- The value of an optional field, which may be written as nothing. -/
  optional? : α → Option (Option α)
  items? : α → Option (List α)
  /-- The values of the named fields. A field that has no such name, or stands twice, is a failure. -/
  record? : List Text → α → Option (List (Option α))
  /-- The value without a type imposed on it. -/
  value? : α → Option Value
  /-- The entries of a mapping, in order and without repeated keys. -/
  entries? : α → Option (List (Value × Value))

namespace Source

/-- No document nests deeper than this. -/
def levelLimit : Nat := 128

/-- The values of the named fields among entries, in the order of the names. -/
def select? {α : Type} (names : List Text) (entries : List (Text × α)) : Option (List (Option α)) :=
  let keys := entries.map (·.1)
  if keys.all names.contains && decide keys.Nodup then some (names.map (entries.lookup ·)) else none

variable {α : Type} [Source α]

/-- The value of a field that may be absent or written as nothing. -/
def optional {β : Type} (read? : α → Option β) : Option α → Option (Option β)
  | none => some none
  | some x =>
    match optional? x with
    | none => none
    | some none => some none
    | some (some y) => (read? y).map some

/-- The value of a field that has a default. -/
def withDefault {β : Type} (default : β) (read? : α → Option β) : Option α → Option β
  | none => some default
  | some x => read? x

/-- The values of a list. -/
def list? {β : Type} (read? : α → Option β) (x : α) : Option (List β) := do (← items? x).mapM read?

end Source
end ShellCompletion

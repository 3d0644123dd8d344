import ShellCompletion.Json.Basic
import ShellCompletion.Schema.Source

/-! Models in JSON. A record may also be written as the list of its fields, which `serde_json` takes as well. -/

namespace ShellCompletion

mutual

/-- A JSON value as an untyped value. Keys must not stand twice. -/
def Value.ofJson? : Json → Option Value
  | .null => some .null
  | .bool b => some (.bool b)
  | .number n => some (.number n)
  | .string t => some (.string t)
  | .array items => (Value.ofJsonItems? items).map .sequence
  | .object fields => (Value.ofJsonFields? fields).bind Value.mapping?
  | .flawed => none

def Value.ofJsonItems? : List Json → Option (List Value)
  | [] => some []
  | j :: js => do return (← Value.ofJson? j) :: (← Value.ofJsonItems? js)

def Value.ofJsonFields? : List (Text × Json) → Option (List (Value × Value))
  | [] => some []
  | (key, j) :: fields => do return (.string key, ← Value.ofJson? j) :: (← Value.ofJsonFields? fields)

end

namespace Json

def text? : Json → Option Text
  | string t => some t
  | _ => none

def bool? : Json → Option Bool
  | bool b => some b
  | _ => none

/-- Null stands for nothing. -/
def optional? : Json → Option (Option Json)
  | null => some none
  | j => some (some j)

def items? : Json → Option (List Json)
  | array items => some items
  | _ => none

/-- The fields by name, or in order with the last ones left out. -/
def record? (names : List Text) : Json → Option (List (Option Json))
  | object fields => Source.select? names fields
  | array items =>
    if items.length ≤ names.length then
      some (items.map some ++ List.replicate (names.length - items.length) none)
    else none
  | _ => none

def entries? : Json → Option (List (Value × Value))
  | object fields =>
    match (Value.ofJsonFields? fields).bind Value.mapping? with
    | some (.mapping entries) => some entries
    | _ => none
  | _ => none

instance : Source Json where
  text? := text?
  bool? := bool?
  optional? := optional?
  items? := items?
  record? := record?
  value? := Value.ofJson?
  entries? := entries?

end Json
end ShellCompletion

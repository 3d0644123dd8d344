import ShellCompletion.Json.Basic
import ShellCompletion.Schema.OfJson

/-! Completion policies in JSON: an object of a kind and its candidates, or the list of the two. -/

namespace ShellCompletion.Policy

def kindField : Text := "kind".toList

def candidatesField : Text := "candidates".toList

/-- Only listed values have candidates; for the other kinds nothing, or null, takes their place. -/
def ofParts? (kind : Text) (candidates : Option Json) : Option Policy :=
  if kind = "enumerated".toList then
    match candidates with
    | some (.array items) => (items.mapM Json.text?).map oneOf
    | _ => none
  else
    match candidates with
    | none | some .null =>
      if kind = "filename".toList then some files else if kind = "freetext".toList then some freeText else none
    | _ => none

/-- The name of a kind. It may also be written as the field of an object that holds null. -/
def kindName? : Json → Option Text
  | .string kind => some kind
  | .object [(kind, .null)] => some kind
  | _ => none

/-- Other fields of the object are ignored. -/
def ofJson? : Json → Option Policy
  | .object fields => do
    match fields.filter (·.1 == kindField), fields.filter (·.1 == candidatesField) with
    | [(_, kind)], [] => ofParts? (← kindName? kind) none
    | [(_, kind)], [(_, candidates)] => ofParts? (← kindName? kind) (some candidates)
    | _, _ => none
  | .array [kind, candidates] => do ofParts? (← kindName? kind) (some candidates)
  | _ => none

end ShellCompletion.Policy

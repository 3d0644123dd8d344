import ShellCompletion.Json.Reader
import ShellCompletion.Path
import ShellCompletion.Schema.Canonical
import ShellCompletion.Schema.OfJson
import ShellCompletion.Schema.OfNode
import ShellCompletion.Schema.Terse
import ShellCompletion.Validation

/-! Models as they stand in files: in one of two formats, and in one of two schemas. -/

namespace ShellCompletion

/-- The formats of model files. -/
inductive Format where
  | yaml
  | json
deriving DecidableEq, Repr

namespace Format

/-- The extension tells the format; whatever is not JSON is YAML. -/
def ofPath (path : Text) : Format :=
  if (Path.extension? path).any fun e => e.map Char.toLower == "json".toList then json else yaml

end Format

/-- A model in one of the two schemas, the canonical one first; `malformed` is the failure where neither fits. -/
def Command.ofSource {α : Type} [Source α] (malformed : Failure) (document : Option α) : Except Failure Command :=
  match document.bind Canonical.command? with
  | some model => .ok model
  | none =>
    match document.bind Terse.commandEntry? with
    | some entry => Terse.model entry
    | none => .error malformed

/-- The model that a text describes. -/
def Command.ofText (format : Format) (t : Text) : Except Failure Command :=
  match format with
  | .yaml => ofSource .malformedYaml (Yaml.Node.ofText? t)
  | .json => ofSource .malformedJson (Json.read? t)

/-- The model that a text describes, if it is valid. -/
def Command.ofValidText (format : Format) (mode : Validation.Strictness) (t : Text) : Logged Command := do
  let model ← Logged.lift (Command.ofText format t)
  model.validate mode
  return model

end ShellCompletion

import ShellCompletion.Text.Basic

/-! The tokens of a YAML text, those of `libyaml` without the one for its start. -/

namespace ShellCompletion.Yaml

/-- How a scalar is written. -/
inductive ScalarStyle where
  | plain
  | singleQuoted
  | doubleQuoted
  | literal
  | folded
deriving DecidableEq, Repr

inductive Token where
  | version (major minor : Nat)
  | tagDirective (handle stem : Text)
  | documentStart
  | documentEnd
  | streamEnd
  | blockSequence
  | blockMapping
  | blockEnd
  | flowSequence
  | flowSequenceEnd
  | flowMapping
  | flowMappingEnd
  | blockEntry
  | flowEntry
  | key
  | value
  | reference (anchor : Text)
  | anchor (name : Text)
  | tag (handle suffix : Text)
  | scalar (style : ScalarStyle) (text : Text)
deriving DecidableEq, Repr

end ShellCompletion.Yaml

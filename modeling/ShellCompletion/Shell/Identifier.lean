import ShellCompletion.Failure

/-! Shell names for paths of command names. A segment keeps its ASCII letters and digits, doubles `_`, and writes
    any other character as its code point between underscores; a path is the sequence of its segments, each
    preceded by its length. Distinct paths have distinct names. -/

namespace ShellCompletion.Shell.Identifier

def encodeChar (c : Char) : Text :=
  if c.isAlphanum then [c] else if c = '_' then ['_', '_'] else ['_'] ++ Text.hexadecimal c.toNat ++ ['_']

/-- One command name in letters, digits and underscores. -/
def encode (segment : Text) : Text := segment.flatMap encodeChar

/-- An encoded segment behind its length. -/
def framed (segment : Text) : Text :=
  ['_'] ++ Text.decimal (encode segment).length ++ ['_'] ++ encode segment

/-- The framed segments of a path. -/
def ofPath (path : List Text) : Text := path.flatMap framed

/-- The empty path has no name. -/
def ofPath? (path : List Text) : Except Failure Text :=
  if path.isEmpty then .error .emptyPath else .ok (ofPath path)

/-- Can the text be used as the name of a function or variable? -/
def isValid : Text → Bool
  | [] => false
  | c :: t => (c.isAlpha || c = '_') && t.all fun d => d.isAlphanum || d = '_'

end ShellCompletion.Shell.Identifier

import ShellCompletion.Text.Basic

/-! Character classes of YAML texts, those of the scanner of `libyaml`, on which `serde_yaml` rests. A text that holds
    any other character than the allowed ones is assumed to be refused as a whole. -/

namespace ShellCompletion.Yaml

/-- A character that may stand in a text at all. -/
def isAllowed (c : Char) : Bool :=
  let n := c.toNat
  n == 0x9 || n == 0xa || n == 0xd || (0x20 ≤ n && n ≤ 0x7e) || n == 0x85 || (0xa0 ≤ n && n ≤ 0xd7ff) ||
    (0xe000 ≤ n && n ≤ 0xfffd) || 0x10000 ≤ n

def isBlank (c : Char) : Bool := c = ' ' || c = '\t'

/-- A line break: carriage return, line feed, next line, line separator or paragraph separator. -/
def isBreak (c : Char) : Bool :=
  c = '\r' || c = '\n' || c = '\u0085' || c = '\u2028' || c = '\u2029'

/-- The break as part of a scalar: all but the two separators become a line feed. -/
def foldBreak (c : Char) : Char := if c = '\u2028' || c = '\u2029' then c else '\n'

/-- A character of anchors, directive names and tag handles. -/
def isWordChar (c : Char) : Bool := c.isAlphanum || c = '_' || c = '-'

/-- A character of a tag, other than a percent sign. -/
def isTagChar (verbatim : Bool) (c : Char) : Bool :=
  isWordChar c || [';', '/', '?', ':', '@', '&', '=', '+', '$', '.', '!', '~', '*', '\'', '(', ')'].contains c ||
    (verbatim && [',', '[', ']'].contains c)

/-- The mark that may begin a line. -/
def isMark (c : Char) : Bool := c = '\uFEFF'

/-- The text is at its end, at a blank or at a break. -/
def atBlank (t : Text) : Bool :=
  match t with
  | [] => true
  | c :: _ => isBlank c || isBreak c

/-- The text is at its end or at a break. -/
def atBreak (t : Text) : Bool :=
  match t with
  | [] => true
  | c :: _ => isBreak c

/-- Three times the same character, standing alone. -/
def atMarker (c : Char) : Text → Bool
  | x :: y :: z :: t => x = c && y = c && z = c && atBlank t
  | _ => false

/-- The start or the end of a document is marked here. -/
def atDocumentMarker (t : Text) : Bool := atMarker '-' t || atMarker '.' t

/-- What is left of a text, and where in it one is. -/
structure Cursor where
  rest : Text
  line : Nat := 0
  column : Nat := 0
deriving DecidableEq, Repr

namespace Cursor

/-- Over one character that breaks no line. -/
def skip (c : Cursor) : Cursor := { c with rest := c.rest.drop 1, column := c.column + 1 }

/-- Over some characters that break no line. -/
def skipMany (n : Nat) (c : Cursor) : Cursor := { c with rest := c.rest.drop n, column := c.column + n }

/-- Over one line break; a carriage return takes a line feed after it along. -/
def skipBreak (c : Cursor) : Cursor :=
  match c.rest with
  | '\r' :: '\n' :: t => ⟨t, c.line + 1, 0⟩
  | _ :: t => ⟨t, c.line + 1, 0⟩
  | [] => c

/-- Over all characters up to the first that does not belong to the class. -/
def skipWhile (p : Char → Bool) (c : Cursor) : Cursor := c.skipMany (c.rest.takeWhile p).length

/-- Over blanks. -/
def skipBlanks (c : Cursor) : Cursor := c.skipWhile isBlank

/-- Over a comment, if there is one. -/
def skipComment (c : Cursor) : Cursor :=
  match c.rest with
  | '#' :: _ => c.skipWhile fun x => !isBreak x
  | _ => c

end Cursor
end ShellCompletion.Yaml

import ShellCompletion.Yaml.Character

/-! Block scalars: indented lines behind a vertical bar, or behind a greater-than sign, which folds them. They are
    scanned as `libyaml` does it; where no indentation is given, empty lines before the first count for it, too. -/

namespace ShellCompletion.Yaml.Scalar

/-- What becomes of the breaks at the end: one of them stays, none, or all. -/
inductive Chomping where
  | clip
  | strip
  | keep
deriving DecidableEq, Repr

/-- The break at which a text stands, as part of a scalar. -/
def breakText : Text → Text
  | '\r' :: '\n' :: _ => ['\n']
  | c :: _ => if isBreak c then [foldBreak c] else []
  | [] => []

/-- Passes indentation and empty lines: the breaks of these lines, the widest indentation met, and where the next
    line begins. While the indentation is not known every space belongs to it; a tab never does. -/
def blockGap (indent : Option Nat) (line column widest : Nat) (breaks : Text) :
    Text → Option (Text × Nat × Cursor)
  | [] => some (breaks, max widest column, ⟨[], line, column⟩)
  | '\r' :: '\n' :: t => blockGap indent (line + 1) 0 (max widest column) (breaks ++ ['\n']) t
  | c :: t =>
    let isIndentation := indent.all fun n => column < n
    if c = ' ' && isIndentation then blockGap indent line (column + 1) widest breaks t
    else if c = '\t' && isIndentation then none
    else if isBreak c then blockGap indent (line + 1) 0 (max widest column) (breaks ++ [foldBreak c]) t
    else some (breaks, max widest column, ⟨c :: t, line, column⟩)

/-- The lines of a block scalar so far: its text in pieces, the last one first, the break after the last line with
    content and whether that line begins with a blank, the breaks of the empty lines after it, and where one is. -/
structure BlockLines where
  pieces : List Text := []
  lastBreak : Text := []
  lastBlank : Bool := false
  emptyBreaks : Text
  cursor : Cursor

/-- What stands between the last line and one that begins with or without a blank. A break between two lines
    without leading blanks is folded. -/
def BlockLines.glue (literal : Bool) (b : BlockLines) (blank : Bool) : Text :=
  (if !literal && b.lastBreak.head? = some '\n' && !b.lastBlank && !blank then
    if b.emptyBreaks.isEmpty then [' '] else []
  else b.lastBreak) ++ b.emptyBreaks

/-- Reads lines at the indentation as long as there are any. -/
def blockLines (literal : Bool) (indent : Nat) : Nat → BlockLines → Option BlockLines
  | 0, b => some b
  | fuel + 1, b =>
    if b.cursor.column = indent && !b.cursor.rest.isEmpty then do
      let blank := b.cursor.rest.head?.any isBlank
      let content := b.cursor.rest.takeWhile fun c => !isBreak c
      let atEnd := b.cursor.skipMany content.length
      let next := atEnd.skipBreak
      let (breaks, _, cursor) ← blockGap (some indent) next.line next.column 0 [] next.rest
      blockLines literal indent fuel {
        pieces := content :: b.glue literal blank :: b.pieces
        lastBreak := breakText atEnd.rest
        lastBlank := blank
        emptyBreaks := breaks
        cursor }
    else some b

/-- The digit of an indentation, which is not zero. -/
def indentDigit? : Text → Option (Option Nat × Nat)
  | c :: _ =>
    if c.isDigit then if c = '0' then none else some (some (c.toNat - '0'.toNat), 1) else some (none, 0)
  | [] => some (none, 0)

/-- The sign of a chomping. -/
def chompingSign : Text → Chomping × Nat
  | '+' :: _ => (.keep, 1)
  | '-' :: _ => (.strip, 1)
  | _ => (.clip, 0)

/-- Reads the header behind the indicator: the chomping, the indentation, and where the header ends. The two may
    stand in either order. -/
def blockHeader (c : Cursor) : Option (Chomping × Option Nat × Cursor) := do
  match chompingSign c.rest with
  | (.clip, _) =>
    let (digit, n) ← indentDigit? c.rest
    let (chomping, m) := if n = 0 then (.clip, 0) else chompingSign (c.rest.drop n)
    return (chomping, digit, c.skipMany (n + m))
  | (chomping, m) =>
    let (digit, n) ← indentDigit? (c.rest.drop m)
    return (chomping, digit, c.skipMany (m + n))

/-- Reads a block scalar behind its indicator, in a collection at the given indentation: its text, and where it
    ends. -/
def block (literal : Bool) (parent : Int) (c : Cursor) : Option (Text × Cursor) := do
  let (chomping, digit, c) ← blockHeader c
  let c := c.skipBlanks.skipComment
  if !atBreak c.rest then none
  let c := c.skipBreak
  let given := digit.map fun n => (max parent 0).toNat + n
  let (breaks, widest, c) ← blockGap given c.line c.column 0 [] c.rest
  let indent := given.getD (max widest (max (parent + 1).toNat 1))
  let b ← blockLines literal indent (c.rest.length + 1) { emptyBreaks := breaks, cursor := c }
  let ending :=
    match chomping with
    | .strip => []
    | .clip => b.lastBreak
    | .keep => b.lastBreak ++ b.emptyBreaks
  return ((ending :: b.pieces).reverse.flatten, b.cursor)

end ShellCompletion.Yaml.Scalar

import ShellCompletion.Yaml.Character

/-! The blanks and breaks between two other characters of a scalar, and the text that they fold into. `libyaml` keeps
    the blanks, the first break and the breaks after it apart in the same way. -/

namespace ShellCompletion.Yaml

/-- Blanks count up to the first break. An escaped break opens a line, too, but is no break to be folded. -/
structure Gap where
  blanks : Text := []
  opensLine : Bool := false
  first : Option Char := none
  more : Text := []
deriving DecidableEq, Repr

namespace Gap

def isEmpty (g : Gap) : Bool := g.blanks.isEmpty && !g.opensLine

/-- The gap after an escaped break. -/
def escapedBreak : Gap := { opensLine := true }

def addBlank (g : Gap) (c : Char) : Gap := if g.opensLine then g else { g with blanks := g.blanks ++ [c] }

def addBreak (g : Gap) (c : Char) : Gap :=
  if g.opensLine then { g with more := g.more ++ [foldBreak c] }
  else { opensLine := true, first := some (foldBreak c) }

/-- One folded break is a space, and of several the first is dropped. A separator is kept. -/
def text (g : Gap) : Text :=
  if g.opensLine then
    match g.first with
    | none => g.more
    | some '\n' => if g.more.isEmpty then [' '] else g.more
    | some c => c :: g.more
  else g.blanks

end Gap
end ShellCompletion.Yaml

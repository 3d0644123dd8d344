import ShellCompletion.Yaml.Scalar.Quoted

/-! Scalars without quotes, scanned as `libyaml` does it. -/

namespace ShellCompletion.Yaml.Scalar

/-- Characters that end a scalar inside brackets. -/
def isFlowIndicator (c : Char) : Bool := [',', '[', ']', '\x7b', '\x7d'].contains c

/-- Reads a scalar from its first character on: its text, where it ends, and whether a break stands before the end.
    `least` is the column that its further lines reach at least, outside brackets. -/
def plain (flow : Bool) (least line column : Nat) (gap : Gap) : Text → Option (Text × Cursor × Bool)
  | [] => some ([], ⟨[], line, column⟩, gap.opensLine)
  | '\r' :: '\n' :: t => plain flow least (line + 1) 0 (gap.addBreak '\n') t
  | c :: t =>
    if isBreak c then plain flow least (line + 1) 0 (gap.addBreak c) t
    else if isBlank c then
      if gap.opensLine && column < least && c = '\t' then none
      else plain flow least line (column + 1) (gap.addBlank c) t
    else if !gap.isEmpty &&
        ((!flow && column < least) || (column = 0 && atDocumentMarker (c :: t)) || c = '#') then
      some ([], ⟨c :: t, line, column⟩, gap.opensLine)
    else if flow && c = ':' && (t.head?.any fun d => d = '?' || isFlowIndicator d) then none
    else if (c = ':' && atBlank t) || (flow && isFlowIndicator c) then
      some ([], ⟨c :: t, line, column⟩, gap.opensLine)
    else withText (gap.text ++ [c]) <$> plain flow least line (column + 1) {} t

end ShellCompletion.Yaml.Scalar

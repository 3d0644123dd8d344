import ShellCompletion.Text.Basic
import ShellCompletion.Text.Printable

/-! Texts as they are quoted in messages: whatever would not be seen, or would be read as a quote, is escaped. -/

namespace ShellCompletion.Text

/-- The escape of a character by its code point. -/
def codeEscape (c : Char) : Text := ['\\', 'u', '\x7b'] ++ hexadecimal c.toNat ++ ['\x7d']

/-- How a character is shown; at the start of a text there is nothing that an extender could be drawn onto. -/
def escapeChar (atStart : Bool) (c : Char) : Text :=
  match c with
  | '\x00' => ['\\', '0']
  | '\t' => ['\\', 't']
  | '\r' => ['\\', 'r']
  | '\n' => ['\\', 'n']
  | '\\' => ['\\', '\\']
  | '"' => ['\\', '"']
  | '\'' => ['\\', '\'']
  | c => if (atStart && isExtender c) || !isPrintable c then codeEscape c else [c]

/-- The text with everything escaped that could not be read off a message. -/
def escaped : Text → Text
  | [] => []
  | c :: t => escapeChar true c ++ t.flatMap (escapeChar false)

end ShellCompletion.Text

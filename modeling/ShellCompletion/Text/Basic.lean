/-! Texts as lists of characters: joining, lines and numerals. -/

namespace ShellCompletion

/-- A text is the list of its characters. -/
abbrev Text := List Char

namespace Text

/-- The texts one after the other, with `sep` between neighbours. -/
def join (sep : Text) : List Text → Text
  | [] => []
  | [t] => t
  | t :: u :: ts => t ++ sep ++ join sep (u :: ts)

/-- Each line followed by a line feed. -/
def unlines (lines : List Text) : Text := lines.flatMap (· ++ ['\n'])

/-- The lines of a text: what stands before each line feed, and what follows the last one if it is not empty. -/
def lines : Text → List Text
  | [] => []
  | '\n' :: t => [] :: lines t
  | c :: t =>
    match lines t with
    | [] => [[c]]
    | l :: ls => (c :: l) :: ls

/-- The number of bytes of a text in UTF-8. -/
def byteCount (t : Text) : Nat := t.foldl (fun n c => n + c.utf8Size) 0

/-- The decimal numeral of `n`, without leading zeros. -/
def decimal (n : Nat) : Text := Nat.toDigits 10 n

/-- The hexadecimal numeral of `n` in lower case, without leading zeros. -/
def hexadecimal (n : Nat) : Text := Nat.toDigits 16 n

end Text
end ShellCompletion

import ShellCompletion.Text.Basic

/-! Spaces and control characters, and the cutting of a text at separators. -/

namespace ShellCompletion
namespace Text

/-- The characters with the property White_Space. -/
def isSpace (c : Char) : Bool :=
  let n := c.toNat
  (0x9 ≤ n && n ≤ 0xd) || n == 0x20 || n == 0x85 || n == 0xa0 || n == 0x1680 || (0x2000 ≤ n && n ≤ 0x200a) ||
    n == 0x2028 || n == 0x2029 || n == 0x202f || n == 0x205f || n == 0x3000

/-- The characters of category Cc. -/
def isControl (c : Char) : Bool := c.toNat < 0x20 || (0x7f ≤ c.toNat && c.toNat < 0xa0)

def hasSpace (t : Text) : Bool := t.any isSpace

/-- Nothing but spaces. -/
def isBlank (t : Text) : Bool := t.all isSpace

/-- The text without the spaces at its two ends. -/
def trim (t : Text) : Text := ((t.dropWhile isSpace).reverse.dropWhile isSpace).reverse

/-- The non-empty pieces between separators, the first of which continues `piece`. -/
def piecesFrom (sep : Char → Bool) (piece : Text) : Text → List Text
  | [] => if piece.isEmpty then [] else [piece]
  | c :: t =>
    if sep c then (if piece.isEmpty then [] else [piece]) ++ piecesFrom sep [] t
    else piecesFrom sep (piece ++ [c]) t

/-- The non-empty pieces of a text between separators, in order. -/
def pieces (sep : Char → Bool) (t : Text) : List Text := piecesFrom sep [] t

end Text
end ShellCompletion

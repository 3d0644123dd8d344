import ShellCompletion.Number.Shortest

/-! Numbers of documents: integers of any size and floating-point numbers. -/

namespace ShellCompletion

inductive Number where
  | int (value : Int)
  | float (value : Binary64)
deriving DecidableEq, Repr

namespace Number

def text : Number → Text
  | int value => (if value < 0 then ['-'] else []) ++ Text.decimal value.natAbs
  | float value => value.text

/-- Equality of numbers; an integer is never equal to a floating-point number. -/
def same : Number → Number → Bool
  | int a, int b => a == b
  | float x, float y => x.sameNumber y
  | _, _ => false

end Number
end ShellCompletion

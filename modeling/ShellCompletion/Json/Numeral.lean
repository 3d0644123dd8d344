import ShellCompletion.Number.Basic

/-! The number that a JSON numeral denotes. It is computed as in `serde_json`, without the feature that makes
    floating-point numbers exact: a significand of 64 bits and a power of ten, rounded at each step. -/

namespace ShellCompletion.Json

/-- A numeral in its parts. The sign of the exponent stands before its digits. -/
structure Numeral where
  negative : Bool
  whole : List Nat
  fraction : List Nat
  exponent : Option (Bool × List Nat)
deriving DecidableEq, Repr

namespace Numeral

/-- The largest integer of 64 bits. -/
def wordLimit : Nat := Nat.pow 2 64 - 1

/-- Appends digits to a significand as long as it fits a word, and counts how many are then left. -/
def accumulate (significand : Nat) : List Nat → Nat × Nat
  | [] => (significand, 0)
  | d :: ds => if significand * 10 + d ≤ wordLimit then accumulate (significand * 10 + d) ds
    else (significand, ds.length + 1)

/-- A power of ten within the range. -/
def powerOfTen (k : Nat) : Binary64 := Binary64.ofDecimal false 1 k

/-- Divides by a power of ten, in steps of at most `10 ^ 308`. After three such steps nothing is left. -/
def scaleDown : Nat → Binary64 → Nat → Binary64
  | 0, x, _ => x
  | fuel + 1, x, k =>
    if k ≤ 308 then x.div (powerOfTen k)
    else if x.isZero then x
    else scaleDown fuel (x.div (powerOfTen 308)) (k - 308)

/-- A significand times a power of ten, each step rounded; nothing if the result is out of range. -/
def scaled? (significand : Nat) (exponent : Int) : Option Binary64 :=
  let x := Binary64.ofNat significand
  if exponent < 0 then some (scaleDown 4 x (-exponent).toNat)
  else if exponent ≤ 308 then
    let y := x.mul (powerOfTen exponent.toNat)
    if y.isFinite then some y else none
  else if x.isZero then some x else none

def digitsValue (ds : List Nat) : Nat := ds.foldl (fun n d => n * 10 + d) 0

/-- Integers of 64 bits are exact, and everything else is a floating-point number. `-0` is one, too. -/
def value? (n : Numeral) : Option Number :=
  let (significand, skipped) := accumulate 0 n.whole
  let float (significand : Nat) (exponent : Int) : Option Number :=
    (scaled? significand exponent).map fun x => .float (if n.negative then x.negate else x)
  if n.fraction.isEmpty && n.exponent.isNone && skipped == 0 then
    if !n.negative then some (.int significand)
    else if 0 < significand ∧ significand ≤ Nat.pow 2 63 then some (.int (-(significand : Int)))
    else float significand 0
  else
    let (full, left) := accumulate significand n.fraction
    let power : Int :=
      match n.exponent with
      | none => 0
      | some (true, ds) => -(digitsValue ds : Int)
      | some (false, ds) => digitsValue ds
    float full ((skipped : Int) - (n.fraction.length - left : Nat) + power)

end Numeral
end ShellCompletion.Json

/-! Binary floating-point numbers of 64 bits as exact values, and rounding to the nearest of them. -/

namespace ShellCompletion

/-- A finite number is `mantissa * 2 ^ exponent` with a mantissa below `2 ^ 53`; the mantissa is at least `2 ^ 52`
    unless the exponent is the least one, `-1074`. -/
inductive Binary64 where
  | nan
  | infinite (negative : Bool)
  | finite (negative : Bool) (mantissa : Nat) (exponent : Int)
deriving DecidableEq, Repr

namespace Binary64

def zero (negative : Bool) : Binary64 := finite negative 0 (-1074)

def isZero : Binary64 → Bool
  | finite _ m _ => m == 0
  | _ => false

def isFinite : Binary64 → Bool
  | finite .. => true
  | _ => false

def negate : Binary64 → Binary64
  | nan => nan
  | infinite s => infinite !s
  | finite s m e => finite (!s) m e

/-- The integer nearest to `num / den`, the even one of two. -/
def roundEven (num den : Nat) : Nat :=
  let q := num / den
  let r := num % den
  if 2 * r < den then q else if den < 2 * r then q + 1 else if q % 2 = 0 then q else q + 1

/-- `num / den * 2 ^ k` as a ratio. -/
def scaleRatio (num den : Nat) (k : Int) : Nat × Nat :=
  if 0 ≤ k then (num * Nat.pow 2 k.toNat, den) else (num, den * Nat.pow 2 (-k).toNat)

/-- The exponent `e` with `2 ^ e ≤ num / den < 2 ^ (e + 1)`. -/
def binaryExponent (num den : Nat) : Int :=
  let a : Int := (num.log2 : Int) - den.log2
  let (n, d) := scaleRatio num den (-a)
  if d ≤ n then a else a - 1

/-- The number nearest to `num / den`, the one with an even mantissa of two. -/
def ofRatio (negative : Bool) (num den : Nat) : Binary64 :=
  if num = 0 then zero negative
  else
    let e := max (binaryExponent num den - 52) (-1074)
    let (n, d) := scaleRatio num den (-e)
    let m := roundEven n d
    let (m, e) := if m = Nat.pow 2 53 then (Nat.pow 2 52, e + 1) else (m, e)
    if 971 < e then infinite negative else finite negative m e

def ofNat (n : Nat) : Binary64 := ofRatio false n 1

/-- The number nearest to `digits * 10 ^ exponent`. Far beyond the ends of the range the powers are not needed. -/
def ofDecimal (negative : Bool) (digits : Nat) (exponent : Int) : Binary64 :=
  let places : Int := (Nat.toDigits 10 digits).length + exponent
  if digits = 0 ∨ places < -330 then zero negative
  else if 330 < places then infinite negative
  else if 0 ≤ exponent then ofRatio negative (digits * Nat.pow 10 exponent.toNat) 1
  else ofRatio negative digits (Nat.pow 10 (-exponent).toNat)

/-- The product, rounded. -/
def mul : Binary64 → Binary64 → Binary64
  | finite s m e, finite t n f =>
    let (num, den) := scaleRatio (m * n) 1 (e + f)
    ofRatio (s != t) num den
  | nan, _ | _, nan => nan
  | infinite s, y => if y.isZero then nan else infinite (s != signOf y)
  | x, infinite t => if x.isZero then nan else infinite (signOf x != t)
where
  signOf : Binary64 → Bool
    | nan => false
    | infinite s => s
    | finite s _ _ => s

/-- The quotient by a number that is finite and not zero, rounded. -/
def div : Binary64 → Binary64 → Binary64
  | finite s m e, finite t n f =>
    let (num, den) := scaleRatio m n (e - f)
    ofRatio (s != t) num den
  | infinite s, finite t _ _ => infinite (s != t)
  | finite s _ _, infinite t => zero (s != t)
  | _, _ => nan

/-- Equality of numbers, where the two zeros are equal and `nan` equals itself. -/
def sameNumber (x y : Binary64) : Bool := x == y || (x.isZero && y.isZero)

end Binary64
end ShellCompletion

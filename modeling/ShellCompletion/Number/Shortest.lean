import ShellCompletion.Number.Binary64
import ShellCompletion.Text.Basic

/-! The shortest decimal that reads back as a given number: the fewest digits, and of these the nearest. -/

namespace ShellCompletion.Binary64

/-- `digits * 10 ^ exponent`. -/
structure Decimal where
  digits : Nat
  exponent : Int
deriving DecidableEq, Repr

/-- The same decimal without trailing zeros among its digits. -/
def Decimal.stripped (d : Decimal) : Decimal :=
  go d.digits d.digits d.exponent
where
  go : Nat → Nat → Int → Decimal
    | 0, n, e => ⟨n, e⟩
    | fuel + 1, n, e => if n ≠ 0 ∧ n % 10 = 0 then go fuel (n / 10) (e + 1) else ⟨n, e⟩

/-- The exponent `k` with `10 ^ k ≤ num / den < 10 ^ (k + 1)`. -/
def decimalExponent (num den : Nat) : Int :=
  if den ≤ num then (Nat.toDigits 10 (num / den)).length - 1
  else
    let places := (Nat.toDigits 10 (den / num)).length
    if num * Nat.pow 10 (places - 1) = den then 1 - (places : Int) else -(places : Int)

/-- `num / den * 10 ^ k` as a ratio. -/
def scaleTen (num den : Nat) (k : Int) : Nat × Nat :=
  if 0 ≤ k then (num * Nat.pow 10 k.toNat, den) else (num, den * Nat.pow 10 (-k).toNat)

/-- The decimal of `places` digits that is nearest to the number `m * 2 ^ e` among those that round to it. What
    rounds to the number lies between the midpoints to its two neighbours, which count if its mantissa is even. -/
def decimalOf? (m : Nat) (e : Int) (places : Nat) : Option Decimal :=
  let (num, den) := scaleRatio m 1 e
  let unit : Int := decimalExponent num den + 1 - places
  -- Four times the number and the two midpoints, counted in units of the last decimal place.
  let (four, scale) := scaleTen (4 * num) den (-unit)
  let (step, stepScale) := scaleTen (scaleRatio 1 1 e).1 (scaleRatio 1 1 e).2 (-unit)
  let half := 2 * step * scale
  let below := if m = Nat.pow 2 52 ∧ -1074 < e then step * scale else half
  let centre := four * stepScale
  let whole := scale * stepScale
  let inside (x : Nat) : Bool :=
    let at4 := 4 * x * whole
    if m % 2 = 0 then centre ≤ at4 + below && at4 ≤ centre + half
    else centre < at4 + below && at4 < centre + half
  let down := four / (4 * scale)
  let up := down + 1
  let distanceDown := centre - 4 * down * whole
  let distanceUp := 4 * up * whole - centre
  match inside down, inside up with
  | false, false => none
  | true, false => some ⟨down, unit⟩
  | false, true => some ⟨up, unit⟩
  | true, true =>
    if distanceDown < distanceUp ∨ (distanceDown = distanceUp ∧ down % 2 = 0) then some ⟨down, unit⟩
    else some ⟨up, unit⟩

/-- The shortest decimal of the number `m * 2 ^ e`, `m` not zero. Seventeen digits always suffice. -/
def shortest (m : Nat) (e : Int) : Decimal :=
  (((List.range 17).findSome? fun n => decimalOf? m e (n + 1)).getD ⟨m, e⟩).stripped

/-- How a decimal is laid out: positionally with a fraction from `10 ^ -5` up to below `10 ^ 16`, and with an
    exponent outside. -/
def Decimal.text (d : Decimal) : Text :=
  let digits := Text.decimal d.digits
  let length : Int := digits.length
  let point := length + d.exponent
  if 0 ≤ d.exponent ∧ point ≤ 16 then digits ++ List.replicate d.exponent.toNat '0' ++ ['.', '0']
  else if 0 < point ∧ point ≤ 16 then digits.take point.toNat ++ ['.'] ++ digits.drop point.toNat
  else if -5 < point ∧ point ≤ 0 then ['0', '.'] ++ List.replicate (-point).toNat '0' ++ digits
  else
    let power := point - 1
    let exponent := ['e'] ++ (if power < 0 then ['-'] else []) ++ Text.decimal power.natAbs
    match digits with
    | [d] => [d] ++ exponent
    | d :: rest => [d, '.'] ++ rest ++ exponent
    | [] => exponent

/-- The text of a number. -/
def text : Binary64 → Text
  | nan => ".nan".toList
  | infinite false => ".inf".toList
  | infinite true => "-.inf".toList
  | finite s m e =>
    (if s then ['-'] else []) ++ if m = 0 then "0.0".toList else (shortest m e).text

end ShellCompletion.Binary64

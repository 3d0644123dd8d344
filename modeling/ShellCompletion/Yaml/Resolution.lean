import ShellCompletion.Value.Basic

/-! What a scalar without quotes denotes: null, a boolean, a number, or else a string. The spellings are those that
    `serde_yaml` takes for them where no type is expected. -/

namespace ShellCompletion.Yaml

/-- The spellings of null, besides the empty text. -/
def isNull (t : Text) : Bool := ["null".toList, "Null".toList, "NULL".toList, "~".toList].contains t

def bool? (t : Text) : Option Bool :=
  if ["true".toList, "True".toList, "TRUE".toList].contains t then some true
  else if ["false".toList, "False".toList, "FALSE".toList].contains t then some false
  else none

/-! ### Integers -/

/-- The value of a digit in a base up to sixteen. -/
def digit? (base : Nat) (c : Char) : Option Nat :=
  let n :=
    if c.isDigit then c.toNat - '0'.toNat
    else if 'a' ≤ c ∧ c ≤ 'f' then c.toNat - 'a'.toNat + 10
    else if 'A' ≤ c ∧ c ≤ 'F' then c.toNat - 'A'.toNat + 10
    else 16
  if n < base then some n else none

/-- The value of digits, of which there must be one. -/
def natural? (base : Nat) (t : Text) : Option Nat :=
  if t.isEmpty then none else t.foldlM (fun n c => (digit? base c).map (n * base + ·)) 0

/-- The base that a text announces, and the digits behind the announcement. -/
def based? : Text → Option (Nat × Text)
  | '0' :: 'x' :: t => some (16, t)
  | '0' :: 'o' :: t => some (8, t)
  | '0' :: 'b' :: t => some (2, t)
  | _ => none

/-- The text without a sign before it. -/
def unsigned : Text → Text
  | '+' :: t | '-' :: t => t
  | t => t

/-- Digits with a needless zero before them are no number. -/
def hasLeadingZero (t : Text) : Bool :=
  match unsigned t with
  | '0' :: c :: t => (c :: t).all Char.isDigit
  | _ => false

/-- An integer of any size, in base ten, sixteen, eight or two. -/
def integer? (t : Text) : Option Int :=
  let magnitude (t : Text) : Option Nat :=
    match based? t with
    | some (base, digits) => natural? base digits
    | none => natural? 10 t
  if hasLeadingZero t then none
  else
    match t with
    | '-' :: t => (magnitude t).map fun n => -(n : Int)
    | '+' :: t => (magnitude t).map Int.ofNat
    | t => (magnitude t).map Int.ofNat

/-- The integers of 64 bits, signed or not. -/
def fitsWord (i : Int) : Bool := -(Int.pow 2 63) ≤ i && i < Int.pow 2 64

/-- The integers of 128 bits, signed or not. -/
def fitsDoubleWord (i : Int) : Bool := -(Int.pow 2 127) ≤ i && i < Int.pow 2 128

/-! ### Floating-point numbers -/

/-- Splits off leading digits. -/
def leadingDigits (t : Text) : Text × Text := (t.takeWhile Char.isDigit, t.dropWhile Char.isDigit)

def digitsValue (t : Text) : Nat := t.foldl (fun n c => n * 10 + (c.toNat - '0'.toNat)) 0

/-- The exponent behind the digits of a decimal: nothing, or a letter, a sign if there is one, and digits. -/
def exponent? : Text → Option Int
  | [] => some 0
  | c :: t =>
    if c = 'e' || c = 'E' then
      let digits := unsigned t
      if digits.isEmpty || !digits.all Char.isDigit then none
      else if t.head? = some '-' then some (-(digitsValue digits : Int))
      else some (digitsValue digits)
    else none

/-- A decimal, rounded: digits with a point somewhere, and an exponent. -/
def decimal? (negative : Bool) (t : Text) : Option Binary64 :=
  let (whole, t) := leadingDigits t
  let (fraction, t) :=
    match t with
    | '.' :: t => leadingDigits t
    | t => ([], t)
  if whole.isEmpty && fraction.isEmpty then none
  else (exponent? t).map fun e =>
    Binary64.ofDecimal negative (digitsValue (whole ++ fraction)) (e - fraction.length)

/-- A finite decimal, an infinity, or what is not a number. -/
def float? (t : Text) : Option Binary64 :=
  let isInfinity (t : Text) : Bool := [".inf".toList, ".Inf".toList, ".INF".toList].contains t
  if [".nan".toList, ".NaN".toList, ".NAN".toList].contains t then some .nan
  else
    let (negative, magnitude) :=
      match t with
      | '-' :: t => (true, t)
      | '+' :: t => (false, t)
      | t => (false, t)
    if isInfinity magnitude then some (.infinite negative)
    else (decimal? negative magnitude).filter Binary64.isFinite

/-! ### Scalars -/

/-- What a plain scalar denotes. An integer that takes more than 64 bits but not more than 128 denotes nothing. -/
def resolve? (t : Text) : Option Value :=
  if t.isEmpty || isNull t then some .null
  else
    match bool? t with
    | some b => some (.bool b)
    | none =>
      match (integer? t).filter fitsDoubleWord with
      | some i => if fitsWord i then some (.number (.int i)) else none
      | none =>
        match if hasLeadingZero t then none else float? t with
        | some x => some (.number (.float x))
        | none => some (.string t)

/-- Would a text be taken for something else than itself if it were written as a plain scalar? -/
def isAmbiguous (t : Text) : Bool :=
  hasLeadingZero t ||
    match resolve? t with
    | some (.string _) => false
    | _ => true

end ShellCompletion.Yaml

import ShellCompletion.Json.Basic
import ShellCompletion.Json.Numeral

/-! Reading of JSON texts. What is read and what is refused is as in `serde_json`; it is assumed that a fault anywhere,
    nesting that is too deep among them, makes the whole text unreadable. -/

namespace ShellCompletion.Json

def isSpace (c : Char) : Bool := c = ' ' || c = '\t' || c = '\n' || c = '\r'

def skipSpaces (t : Text) : Text := t.dropWhile isSpace

/-! ### Strings -/

/-- The value of a hexadecimal digit. -/
def hexDigit? (c : Char) : Option Nat :=
  if c.isDigit then some (c.toNat - '0'.toNat)
  else if 'a' ≤ c ∧ c ≤ 'f' then some (c.toNat - 'a'.toNat + 10)
  else if 'A' ≤ c ∧ c ≤ 'F' then some (c.toNat - 'A'.toNat + 10)
  else none

/-- The value of four hexadecimal digits. -/
def hexFour? (a b c d : Char) : Option Nat := do
  return (((← hexDigit? a) * 16 + (← hexDigit? b)) * 16 + (← hexDigit? c)) * 16 + (← hexDigit? d)

/-- What the letter after a backslash stands for. -/
def simpleEscape? : Char → Option Char
  | '"' => some '"'
  | '\\' => some '\\'
  | '/' => some '/'
  | 'b' => some '\x08'
  | 'f' => some '\x0c'
  | 'n' => some '\n'
  | 'r' => some '\r'
  | 't' => some '\t'
  | _ => none

def isHighSurrogate (n : Nat) : Bool := 0xd800 ≤ n && n < 0xdc00

def isLowSurrogate (n : Nat) : Bool := 0xdc00 ≤ n && n < 0xe000

/-- The character that two surrogates stand for. -/
def pairedChar (high low : Nat) : Char := Char.ofNat (0x10000 + (high - 0xd800) * 0x400 + (low - 0xdc00))

/-- A character in front of what was read, if that denotes a text. -/
def withChar (c : Char) : Option Text × Text → Option Text × Text
  | (t, rest) => (t.map (c :: ·), rest)

/-- Reads a string behind its opening quote: its text, unless it holds half of a surrogate pair, and the rest. -/
def stringBody : Text → Option (Option Text × Text)
  | [] => none
  | '"' :: rest => some (some [], rest)
  | '\\' :: 'u' :: a :: b :: c :: d :: rest => do
    let n ← hexFour? a b c d
    if isHighSurrogate n then
      match rest with
      | '\\' :: 'u' :: e :: f :: g :: h :: more =>
        let m ← hexFour? e f g h
        if isLowSurrogate m then withChar (pairedChar n m) <$> stringBody more
        else (fun (_, r) => (none, r)) <$> stringBody ('\\' :: 'u' :: e :: f :: g :: h :: more)
      | rest => (fun (_, r) => (none, r)) <$> stringBody rest
    else if isLowSurrogate n then (fun (_, r) => (none, r)) <$> stringBody rest
    else withChar (Char.ofNat n) <$> stringBody rest
  | '\\' :: c :: rest => do
    let e ← simpleEscape? c
    withChar e <$> stringBody rest
  | c :: rest => if c.toNat < 0x20 then none else withChar c <$> stringBody rest

/-! ### Numerals -/

/-- The leading digits of a text, and the rest. -/
def digits : Text → List Nat × Text
  | [] => ([], [])
  | c :: t => if c.isDigit then ((c.toNat - '0'.toNat) :: (digits t).1, (digits t).2) else ([], c :: t)

/-- Reads the whole part of a numeral, which has no leading zero. -/
def wholePart (t : Text) : Option (List Nat × Text) :=
  match digits t with
  | ([], _) => none
  | (0 :: _ :: _, _) => none
  | r => some r

def fractionPart : Text → Option (List Nat × Text)
  | '.' :: t =>
    match digits t with
    | ([], _) => none
    | r => some r
  | t => some ([], t)

def exponentPart : Text → Option (Option (Bool × List Nat) × Text)
  | c :: t =>
    if c = 'e' || c = 'E' then
      let (negative, t) :=
        match t with
        | '+' :: t => (false, t)
        | '-' :: t => (true, t)
        | t => (false, t)
      match digits t with
      | ([], _) => none
      | (ds, rest) => some (some (negative, ds), rest)
    else some (none, c :: t)
  | [] => some (none, [])

/-- Reads a numeral. -/
def numeral (t : Text) : Option (Numeral × Text) := do
  let (negative, t) :=
    match t with
    | '-' :: t => (true, t)
    | t => (false, t)
  let (whole, t) ← wholePart t
  let (fraction, t) ← fractionPart t
  let (exponent, t) ← exponentPart t
  return (⟨negative, whole, fraction, exponent⟩, t)

/-! ### Values -/

mutual

/-- Reads a value; `fuel` bounds the nesting. -/
def value : Nat → Text → Option (Json × Text)
  | 0, _ => none
  | fuel + 1, t =>
    match skipSpaces t with
    | 'n' :: 'u' :: 'l' :: 'l' :: rest => some (null, rest)
    | 't' :: 'r' :: 'u' :: 'e' :: rest => some (bool true, rest)
    | 'f' :: 'a' :: 'l' :: 's' :: 'e' :: rest => some (bool false, rest)
    | '"' :: rest => do
      let (text, rest) ← stringBody rest
      return ((text.map string).getD flawed, rest)
    | '[' :: rest =>
      match skipSpaces rest with
      | ']' :: rest => some (array [], rest)
      | rest => do
        let (items, rest) ← items fuel rest
        return (array items, rest)
    | '\x7b' :: rest =>
      match skipSpaces rest with
      | '\x7d' :: rest => some (object [], rest)
      | rest => do
        let (fields, rest) ← fields fuel rest
        return ((fields.map object).getD flawed, rest)
    | t => do
      let (n, rest) ← numeral t
      return ((n.value?.map number).getD flawed, rest)

/-- Reads the items of an array up to its closing bracket. -/
def items : Nat → Text → Option (List Json × Text)
  | 0, _ => none
  | fuel + 1, t => do
    let (item, rest) ← value fuel t
    match skipSpaces rest with
    | ',' :: rest =>
      let (more, rest) ← items fuel rest
      return (item :: more, rest)
    | ']' :: rest => return ([item], rest)
    | _ => none

/-- Reads the fields of an object up to its closing brace; nothing comes of them if a key denotes no text. -/
def fields : Nat → Text → Option (Option (List (Text × Json)) × Text)
  | 0, _ => none
  | fuel + 1, t =>
    match skipSpaces t with
    | '"' :: rest => do
      let (key, rest) ← stringBody rest
      match skipSpaces rest with
      | ':' :: rest =>
        let (item, rest) ← value fuel rest
        let field := key.map (·, item)
        match skipSpaces rest with
        | ',' :: rest =>
          let (more, rest) ← fields fuel rest
          return ((fun f fs => f :: fs) <$> field <*> more, rest)
        | '\x7d' :: rest => return (field.map ([·]), rest)
        | _ => none
      | _ => none
    | _ => none

end

/-- The value that a text denotes, whatever flaws it holds. -/
def ofText? (t : Text) : Option Json :=
  match value (2 * t.length + 2) t with
  | some (j, rest) => if (skipSpaces rest).isEmpty then some j else none
  | none => none

/-- The value that a text denotes, if it is sound. -/
def read? (t : Text) : Option Json := (ofText? t).filter (isSound levelLimit)

end ShellCompletion.Json

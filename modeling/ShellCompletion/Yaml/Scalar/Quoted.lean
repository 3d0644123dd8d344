import ShellCompletion.Yaml.Scalar.Gap

/-! Scalars in quotes, scanned and folded as `libyaml` does it, with the same escapes. -/

namespace ShellCompletion.Yaml.Scalar

/-- A text in front of what was read. -/
def withText {α : Type} (t : Text) : Text × α → Text × α
  | (u, rest) => (t ++ u, rest)

/-- Reads a scalar behind its opening apostrophe, after a gap: its text, and where it ends. Two apostrophes stand
    for one. -/
def singleQuoted (line column : Nat) (gap : Gap) : Text → Option (Text × Cursor)
  | [] => none
  | '\r' :: '\n' :: t => singleQuoted (line + 1) 0 (gap.addBreak '\n') t
  | c :: t =>
    if isBreak c then singleQuoted (line + 1) 0 (gap.addBreak c) t
    else if isBlank c then singleQuoted line (column + 1) (gap.addBlank c) t
    else if column = 0 && atDocumentMarker (c :: t) then none
    else if c = '\'' then
      match t with
      | '\'' :: u => withText (gap.text ++ ['\'']) <$> singleQuoted line (column + 2) {} u
      | t => some (gap.text, ⟨t, line, column + 1⟩)
    else withText (gap.text ++ [c]) <$> singleQuoted line (column + 1) {} t

/-- The value of a hexadecimal digit. -/
def hexDigit? (c : Char) : Option Nat :=
  if c.isDigit then some (c.toNat - '0'.toNat)
  else if 'a' ≤ c ∧ c ≤ 'f' then some (c.toNat - 'a'.toNat + 10)
  else if 'A' ≤ c ∧ c ≤ 'F' then some (c.toNat - 'A'.toNat + 10)
  else none

/-- The value of hexadecimal digits. -/
def hexValue? (ds : List Char) : Option Nat :=
  ds.foldlM (fun n d => (hexDigit? d).map (n * 16 + ·)) 0

/-- The character with the code point that the digits give. -/
def hexChar? (ds : List Char) : Option Char := do
  let n ← hexValue? ds
  if n.isValidChar then some (Char.ofNat n) else none

/-- What a letter after a backslash stands for. -/
def namedEscape? : Char → Option Char
  | '0' => some '\x00'
  | 'a' => some '\x07'
  | 'b' => some '\x08'
  | 't' | '\t' => some '\t'
  | 'n' => some '\n'
  | 'v' => some '\x0b'
  | 'f' => some '\x0c'
  | 'r' => some '\r'
  | 'e' => some '\x1b'
  | ' ' => some ' '
  | '"' => some '"'
  | '/' => some '/'
  | '\\' => some '\\'
  | 'N' => some '\u0085'
  | '_' => some '\u00a0'
  | 'L' => some '\u2028'
  | 'P' => some '\u2029'
  | _ => none

/-- Reads a scalar behind its opening quote, after a gap: its text, and where it ends. -/
def doubleQuoted (line column : Nat) (gap : Gap) : Text → Option (Text × Cursor)
  | [] => none
  | '\r' :: '\n' :: t => doubleQuoted (line + 1) 0 (gap.addBreak '\n') t
  | '\\' :: '\r' :: '\n' :: t =>
    withText gap.text <$> doubleQuoted (line + 1) 0 .escapedBreak t
  | '\\' :: 'x' :: a :: b :: t => do
    let x ← hexChar? [a, b]
    withText (gap.text ++ [x]) <$> doubleQuoted line (column + 4) {} t
  | '\\' :: 'u' :: a :: b :: c :: d :: t => do
    let x ← hexChar? [a, b, c, d]
    withText (gap.text ++ [x]) <$> doubleQuoted line (column + 6) {} t
  | '\\' :: 'U' :: a :: b :: c :: d :: e :: f :: g :: h :: t => do
    let x ← hexChar? [a, b, c, d, e, f, g, h]
    withText (gap.text ++ [x]) <$> doubleQuoted line (column + 10) {} t
  | '\\' :: e :: t =>
    if isBreak e then withText gap.text <$> doubleQuoted (line + 1) 0 .escapedBreak t
    else do
      let x ← namedEscape? e
      withText (gap.text ++ [x]) <$> doubleQuoted line (column + 2) {} t
  | c :: t =>
    if isBreak c then doubleQuoted (line + 1) 0 (gap.addBreak c) t
    else if isBlank c then doubleQuoted line (column + 1) (gap.addBlank c) t
    else if column = 0 && atDocumentMarker (c :: t) then none
    else if c = '"' then some (gap.text, ⟨t, line, column + 1⟩)
    else withText (gap.text ++ [c]) <$> doubleQuoted line (column + 1) {} t

end ShellCompletion.Yaml.Scalar

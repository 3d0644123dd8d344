import ShellCompletion.Yaml.Scalar.Quoted

/-! Anchors, tags and directives, scanned as `libyaml` does it. -/

namespace ShellCompletion.Yaml

/-- Reads the name behind an anchor or reference sign. -/
def anchorName? (c : Cursor) : Option (Text × Cursor) :=
  let name := c.rest.takeWhile isWordChar
  let c := c.skipMany name.length
  let ends := atBlank c.rest || c.rest.head?.any ['?', ':', ',', ']', '\x7d', '%', '@', '\x60'].contains
  if name.isEmpty || !ends then none else some (name, c)

/-! ### Tags -/

/-- How many bytes a character has, by the first of them. -/
def byteCount? (b : Nat) : Option Nat :=
  if b < 0x80 then some 1
  else if 0xc0 ≤ b ∧ b < 0xe0 then some 2
  else if 0xe0 ≤ b ∧ b < 0xf0 then some 3
  else if 0xf0 ≤ b ∧ b < 0xf8 then some 4
  else none

/-- Reads bytes that are each written as a percent sign and two digits. -/
def escapedBytes? : Nat → Text → Option (List Nat × Text)
  | 0, t => some ([], t)
  | n + 1, '%' :: a :: b :: t => do
    let byte ← Scalar.hexValue? [a, b]
    let (bytes, t) ← escapedBytes? n t
    return (byte :: bytes, t)
  | _, _ => none

/-- Reads a character that is written as its bytes. -/
def escapedChar? (t : Text) : Option (Char × Text) := do
  let ([first], _) ← escapedBytes? 1 t | none
  let n ← byteCount? first
  let (bytes, t) ← escapedBytes? n t
  let text ← String.fromUTF8? (ByteArray.mk (bytes.map Nat.toUInt8).toArray)
  match text.toList with
  | [c] => some (c, t)
  | _ => none

/-- Reads the characters of a tag; `fuel` bounds how many. -/
def tagText? (verbatim : Bool) : Nat → Cursor → Option (Text × Cursor)
  | 0, c => some ([], c)
  | fuel + 1, c =>
    match c.rest with
    | '%' :: t => do
      let (x, rest) ← escapedChar? ('%' :: t)
      let (text, c) ← tagText? verbatim fuel { c with rest, column := c.column + (c.rest.length - rest.length) }
      return (x :: text, c)
    | x :: _ =>
      if isTagChar verbatim x then do
        let (text, c) ← tagText? verbatim fuel c.skip
        return (x :: text, c)
      else some ([], c)
    | [] => some ([], c)

/-- Reads a tag handle: an exclamation mark, word characters, and a second mark if there is one. -/
def tagHandle? (c : Cursor) : Option (Text × Cursor) :=
  match c.rest with
  | '!' :: t =>
    let word := t.takeWhile isWordChar
    match t.drop word.length with
    | '!' :: _ => some (['!'] ++ word ++ ['!'], c.skipMany (word.length + 2))
    | _ => some (['!'] ++ word, c.skipMany (word.length + 1))
  | _ => none

/-- Reads a tag: its handle and what follows it. A verbatim tag and the lone mark have no handle. -/
def tag? (inFlow : Bool) (c : Cursor) : Option (Text × Text × Cursor) := do
  let (handle, suffix, c) ←
    match c.rest with
    | '!' :: '<' :: _ => do
      let (text, c) ← tagText? true c.rest.length (c.skipMany 2)
      match c.rest with
      | '>' :: _ => if text.isEmpty then none else some ([], text, c.skip)
      | _ => none
    | _ => do
      let (handle, c) ← tagHandle? c
      let (text, c) ← tagText? false c.rest.length c
      if handle.length ≥ 2 && handle.getLast? = some '!' then
        if text.isEmpty then none else some (handle, text, c)
      else if handle.length + text.length = 1 then some ([], ['!'], c)
      else some (['!'], handle.drop 1 ++ text, c)
  if atBlank c.rest || (inFlow && c.rest.head? = some ',') then some (handle, suffix, c) else none

/-! ### Directives -/

/-- The parts of a directive. -/
inductive Directive where
  | version (major minor : Nat)
  | tag (handle stem : Text)

/-- Reads a number of at most nine digits. -/
def versionNumber? (c : Cursor) : Option (Nat × Cursor) :=
  let digits := c.rest.takeWhile Char.isDigit
  if digits.isEmpty || 9 < digits.length then none
  else some (digits.foldl (fun n d => n * 10 + (d.toNat - '0'.toNat)) 0, c.skipMany digits.length)

def versionDirective? (c : Cursor) : Option (Directive × Cursor) := do
  let (major, c) ← versionNumber? c.skipBlanks
  match c.rest with
  | '.' :: _ =>
    let (minor, c) ← versionNumber? c.skip
    return (.version major minor, c)
  | _ => none

def tagDirective? (c : Cursor) : Option (Directive × Cursor) := do
  let (handle, c) ← tagHandle? c.skipBlanks
  if handle.length ≠ 1 && handle.getLast? ≠ some '!' then none
  if !c.rest.head?.any isBlank then none
  let (stem, c) ← tagText? true c.rest.length c.skipBlanks
  if stem.isEmpty || !atBlank c.rest then none
  return (.tag handle stem, c)

/-- Reads a directive behind its percent sign, up to the end of its line. -/
def directive? (c : Cursor) : Option (Directive × Cursor) := do
  let name := c.rest.takeWhile isWordChar
  let c := c.skipMany name.length
  if !atBlank c.rest then none
  let (d, c) ←
    if name = "YAML".toList then versionDirective? c
    else if name = "TAG".toList then tagDirective? c
    else none
  let c := c.skipBlanks.skipComment
  if atBreak c.rest then some (d, c.skipBreak) else none

end ShellCompletion.Yaml

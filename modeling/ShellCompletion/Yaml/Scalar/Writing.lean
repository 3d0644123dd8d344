import ShellCompletion.Yaml.Character
import ShellCompletion.Yaml.Resolution

/-! Strings as scalars. A string is written plainly if it reads back as itself that way, in single quotes if that
    helps, and with escapes otherwise; a string of several lines is a literal block. `serde_yaml` asks for one of these
    styles, and the emitter of `libyaml` falls back on another where the string does not allow it. It is assumed that
    lines are never broken for their length, and that characters beyond ASCII are written as they are. -/

namespace ShellCompletion.Yaml.Scalar

/-- Characters that are written as they are. -/
def isPrintable (c : Char) : Bool :=
  let n := c.toNat
  n == 0xa || (0x20 ≤ n && n ≤ 0x7e) || (0xa0 ≤ n && n ≤ 0xd7ff) ||
    (0xe000 ≤ n && n ≤ 0xfffd && n != 0xfeff)

/-- Do two neighbouring characters belong to the one and the other class? -/
def hasPair (p q : Char → Bool) : Text → Bool
  | c :: d :: t => (p c && q d) || hasPair p q (d :: t)
  | _ => false

def isGap (c : Char) : Bool := isBlank c || isBreak c

/-- Characters that no plain scalar begins with. -/
def isIndicator (c : Char) : Bool :=
  ['#', ',', '[', ']', '\x7b', '\x7d', '&', '*', '!', '|', '>', '\'', '"', '%', '@', '\x60'].contains c

/-- Would the beginning of a plain text be taken for syntax? -/
def beginsAsSyntax (t : Text) : Bool :=
  match t with
  | [] => false
  | c :: u => isIndicator c || (['?', '-'].contains c && atBlank u) || "---".toList.isPrefixOf t ||
      "...".toList.isPrefixOf t

/-- Would something in a plain text be taken for the end of a key, or for a comment? -/
def holdsSyntax (t : Text) : Bool :=
  t.getLast? == some ':' || hasPair (· == ':') isGap t || hasPair isGap (· == '#') t

/-- Spaces before breaks, and characters that cannot be shown, survive only as escapes. -/
def needsEscapes (t : Text) : Bool := hasPair (· == ' ') isBreak t || t.any (!isPrintable ·)

/-- A space or break stands at one of the two ends. -/
def hasLooseEnd (t : Text) : Bool :=
  let isLoose (c : Char) : Bool := c == ' ' || isBreak c
  t.head?.any isLoose || t.getLast?.any isLoose

/-- Words for truth values in other dialects are never written plainly. -/
def truthWords : List Text := ["y".toList, "Y".toList, "yes".toList, "Yes".toList, "YES".toList, "n".toList,
  "N".toList, "no".toList, "No".toList, "NO".toList, "true".toList, "True".toList, "TRUE".toList, "false".toList,
  "False".toList, "FALSE".toList, "on".toList, "On".toList, "ON".toList, "off".toList, "Off".toList, "OFF".toList]

def mayBePlain (t : Text) : Bool :=
  !truthWords.contains t && !isAmbiguous t && !beginsAsSyntax t && !holdsSyntax t && !needsEscapes t &&
    !hasLooseEnd t && !t.any isBreak

def mayBeSingleQuoted (t : Text) : Bool := !needsEscapes t && !hasPair isBreak (· == ' ') t

def mayBeLiteral (t : Text) : Bool := !needsEscapes t && t.getLast? != some ' '

/-! ### Styles -/

def spaces (n : Nat) : Text := List.replicate n ' '

/-- The text with every line indented that is not empty; `atStart` tells whether it begins a line. -/
def indented (indent : Nat) : Bool → Text → Text
  | _, [] => []
  | atStart, c :: t =>
    if isBreak c then c :: indented indent true t
    else (if atStart then spaces indent else []) ++ c :: indented indent false t

/-- In single quotes an apostrophe is written twice. -/
def singleQuotedText (indent : Nat) (t : Text) : Text :=
  let body := t.flatMap fun c => if c = '\'' then ['\'', '\''] else [c]
  ['\''] ++ indented indent false body ++ (if t.getLast?.any isBreak then spaces indent else []) ++ ['\'']

/-- A hexadecimal numeral of `width` digits in upper case. -/
def hexDigits (width : Nat) (n : Nat) : Text :=
  let digits := (Text.hexadecimal n).map Char.toUpper
  List.replicate (width - digits.length) '0' ++ digits

/-- A character inside double quotes. -/
def doubleQuotedChar (c : Char) : Text :=
  match c with
  | '\x00' => ['\\', '0']
  | '\x07' => ['\\', 'a']
  | '\x08' => ['\\', 'b']
  | '\t' => ['\\', 't']
  | '\n' => ['\\', 'n']
  | '\x0b' => ['\\', 'v']
  | '\x0c' => ['\\', 'f']
  | '\r' => ['\\', 'r']
  | '\x1b' => ['\\', 'e']
  | '"' => ['\\', '"']
  | '\\' => ['\\', '\\']
  | '\u0085' => ['\\', 'N']
  | '\u2028' => ['\\', 'L']
  | '\u2029' => ['\\', 'P']
  | c =>
    if isPrintable c then [c]
    else if c.toNat < 0x100 then ['\\', 'x'] ++ hexDigits 2 c.toNat
    else if c.toNat < 0x10000 then ['\\', 'u'] ++ hexDigits 4 c.toNat
    else ['\\', 'U'] ++ hexDigits 8 c.toNat

def doubleQuotedText (t : Text) : Text := ['"'] ++ t.flatMap doubleQuotedChar ++ ['"']

/-- What is announced of the breaks at the end of a literal block: none, one (which needs no sign), or more. -/
def endingSign (t : Text) : Text :=
  match t.reverse with
  | [] => ['-']
  | [c] => if isBreak c then ['+'] else ['-']
  | c :: d :: _ => if !isBreak c then ['-'] else if isBreak d then ['+'] else []

/-- A literal block. Its indentation is announced where the first line does not show it. -/
def literalText (indent : Nat) (t : Text) : Text :=
  let announced := t.head?.any fun c => c == ' ' || isBreak c
  ['|'] ++ (if announced then ['2'] else []) ++ endingSign t ++ ['\n'] ++ indented indent true t

/-- A string as a scalar, with `indent` spaces before the lines that it continues on. -/
def stringText (indent : Nat) (t : Text) : Text :=
  if t.any (· == '\n') then if mayBeLiteral t then literalText indent t else doubleQuotedText t
  else if mayBePlain t then t
  else if mayBeSingleQuoted t then singleQuotedText indent t
  else doubleQuotedText t

end ShellCompletion.Yaml.Scalar

import ShellCompletion.Yaml.Scalar.Block
import ShellCompletion.Yaml.Scalar.Plain
import ShellCompletion.Yaml.Token.Basic
import ShellCompletion.Yaml.Token.Property

/-! A YAML text as its tokens. What opens and closes a block follows from the columns, and what turns out to be the
    key of a mapping is marked as one when the colon behind it is met.

    These are the rules of the scanner of `libyaml`. It scans a token when it is asked for one, and here the whole text
    is scanned at once. That is assumed to make no difference: a fault anywhere in a text makes all of it unreadable. -/

namespace ShellCompletion.Yaml

/-- A place where the key of a mapping may have begun: behind how many tokens, and where in the text. It is required
    if nothing but a key may stand there. -/
structure KeyPlace where
  position : Nat
  required : Bool
  line : Nat
  column : Nat
deriving DecidableEq, Repr

/-- The tokens so far, the last one first, and what decides about the next ones. -/
structure Lexer where
  cursor : Cursor
  tokens : List Token := []
  count : Nat := 0
  /-- How many brackets are open. -/
  depth : Nat := 0
  /-- May the key of a mapping begin here? -/
  keyAllowed : Bool := true
  /-- The place of a possible key in each open bracket, innermost first, and outside all of them. -/
  keys : List (Option KeyPlace) := [none]
  indent : Int := -1
  indents : List Int := []

namespace Lexer

def inFlow (s : Lexer) : Bool := s.depth != 0

def push (s : Lexer) (t : Token) : Lexer := { s with tokens := t :: s.tokens, count := s.count + 1 }

/-- Inserts tokens, in reverse order, behind the first `position` ones. -/
def insertAt (s : Lexer) (position : Nat) (ts : List Token) : Lexer :=
  let later := s.count - position
  { s with tokens := s.tokens.take later ++ ts ++ s.tokens.drop later, count := s.count + ts.length }

/-! ### Space between tokens -/

/-- Passes spaces, comments and breaks. Outside brackets a new line may begin a key, and a tab is passed only where
    no key may begin. -/
def skipSpace (s : Lexer) : Nat → Lexer
  | 0 => s
  | fuel + 1 =>
    let c := if s.cursor.column = 0 && s.cursor.rest.head?.any isMark then s.cursor.skip else s.cursor
    let c := c.skipWhile fun x => x = ' ' || ((s.inFlow || !s.keyAllowed) && x = '\t')
    let c := c.skipComment
    if c.rest.head?.any isBreak then
      skipSpace { s with cursor := c.skipBreak, keyAllowed := s.keyAllowed || !s.inFlow } fuel
    else { s with cursor := c }

/-! ### Keys -/

/-- A key stands on one line and begins at most so many characters before its colon. -/
def keyReach : Nat := 1024

def isStale (c : Cursor) (k : KeyPlace) : Bool := k.line < c.line || k.column + keyReach < c.column

/-- Gives up the places that are out of reach. A required key must have been met by then. -/
def dropStale (s : Lexer) : Option Lexer :=
  if s.keys.any fun k => k.any fun k => isStale s.cursor k && k.required then none
  else some { s with keys := s.keys.map fun k => k.filter fun k => !isStale s.cursor k }

def setKey (s : Lexer) (k : Option KeyPlace) : Lexer := { s with keys := k :: s.keys.drop 1 }

def currentKey (s : Lexer) : Option KeyPlace := s.keys.head?.join

/-- Gives up the innermost place. -/
def removeKey (s : Lexer) : Option Lexer :=
  if s.currentKey.any (·.required) then none else some (s.setKey none)

/-- Remembers that a key may begin here. -/
def saveKey (s : Lexer) : Option Lexer :=
  if s.keyAllowed then do
    let s ← s.removeKey
    return s.setKey (some ⟨s.count, !s.inFlow && s.indent == s.cursor.column, s.cursor.line, s.cursor.column⟩)
  else some s

/-! ### Indentation -/

/-- Is a block opened at this column? -/
def deepens (s : Lexer) (column : Nat) : Bool := !s.inFlow && s.indent < column

def indentTo (s : Lexer) (column : Nat) : Lexer := { s with indents := s.indent :: s.indents, indent := column }

/-- Opens a block at this column if it lies deeper than the open ones. -/
def openBlock (s : Lexer) (column : Nat) (t : Token) : Lexer :=
  if s.deepens column then (s.indentTo column).push t else s

/-- The indentations that are left of a column, how many are not, and the innermost left one. -/
def closing (column : Int) : Int → List Int → Nat × Int × List Int
  | indent, [] => (0, indent, [])
  | indent, i :: is =>
    if column < indent then
      let (n, r) := closing column i is
      (n + 1, r)
    else (0, indent, i :: is)

/-- Closes the blocks that lie deeper than a column. -/
def closeBlocks (s : Lexer) (column : Int) : Lexer :=
  if s.inFlow then s
  else
    let (n, indent, indents) := closing column s.indent s.indents
    { s with tokens := List.replicate n .blockEnd ++ s.tokens, count := s.count + n, indent, indents }

/-! ### Tokens -/

def skipMany (s : Lexer) (n : Nat) : Lexer := { s with cursor := s.cursor.skipMany n }

/-- Closes everything before a mark that ends a document or the text. -/
def endBlocks (s : Lexer) : Option Lexer := do
  let s ← (s.closeBlocks (-1)).removeKey
  return { s with keyAllowed := false }

def lexDirective (s : Lexer) : Option Lexer := do
  let s ← s.endBlocks
  let (d, cursor) ← directive? s.cursor.skip
  let token :=
    match d with
    | .version major minor => Token.version major minor
    | .tag handle stem => Token.tagDirective handle stem
  return { s.push token with cursor }

def lexMarker (s : Lexer) (t : Token) : Option Lexer := do
  let s ← s.endBlocks
  return (s.push t).skipMany 3

def lexFlowStart (s : Lexer) (t : Token) : Option Lexer := do
  let s ← s.saveKey
  return { (s.push t).skipMany 1 with keys := none :: s.keys, depth := s.depth + 1, keyAllowed := true }

def lexFlowEnd (s : Lexer) (t : Token) : Option Lexer := do
  let s ← s.removeKey
  let s := if s.inFlow then { s with keys := s.keys.drop 1, depth := s.depth - 1 } else s
  return { (s.push t).skipMany 1 with keyAllowed := false }

def lexFlowEntry (s : Lexer) : Option Lexer := do
  let s ← s.removeKey
  return { (s.push .flowEntry).skipMany 1 with keyAllowed := true }

def lexBlockEntry (s : Lexer) : Option Lexer := do
  if !s.inFlow && !s.keyAllowed then none
  let s ← (s.openBlock s.cursor.column .blockSequence).removeKey
  return { (s.push .blockEntry).skipMany 1 with keyAllowed := true }

def lexKey (s : Lexer) : Option Lexer := do
  if !s.inFlow && !s.keyAllowed then none
  let s ← (s.openBlock s.cursor.column .blockMapping).removeKey
  return { (s.push .key).skipMany 1 with keyAllowed := !s.inFlow }

/-- A colon makes a key of what began at the innermost place. -/
def lexValue (s : Lexer) : Option Lexer :=
  match s.currentKey with
  | some k =>
    let s := s.setKey none
    let s := if s.deepens k.column then (s.indentTo k.column).insertAt k.position [.key, .blockMapping]
      else s.insertAt k.position [.key]
    some { (s.push .value).skipMany 1 with keyAllowed := false }
  | none =>
    if !s.inFlow && !s.keyAllowed then none
    else
      let s := s.openBlock s.cursor.column .blockMapping
      some { (s.push .value).skipMany 1 with keyAllowed := !s.inFlow }

def lexAnchor (s : Lexer) (token : Text → Token) : Option Lexer := do
  let s ← s.saveKey
  let (name, cursor) ← anchorName? s.cursor.skip
  return { s.push (token name) with cursor, keyAllowed := false }

def lexTag (s : Lexer) : Option Lexer := do
  let s ← s.saveKey
  let (handle, suffix, cursor) ← tag? s.inFlow s.cursor
  return { s.push (.tag handle suffix) with cursor, keyAllowed := false }

def lexBlockScalar (s : Lexer) (style : ScalarStyle) : Option Lexer := do
  let s ← s.removeKey
  let (text, cursor) ← Scalar.block (style == .literal) s.indent s.cursor.skip
  return { s.push (.scalar style text) with cursor, keyAllowed := true }

def lexQuoted (s : Lexer) (style : ScalarStyle) : Option Lexer := do
  let s ← s.saveKey
  let c := s.cursor.skip
  let (text, cursor) ←
    if style = .singleQuoted then Scalar.singleQuoted c.line c.column {} c.rest
    else Scalar.doubleQuoted c.line c.column {} c.rest
  return { s.push (.scalar style text) with cursor, keyAllowed := false }

def lexPlain (s : Lexer) : Option Lexer := do
  let s ← s.saveKey
  let c := s.cursor
  let (text, cursor, opensLine) ← Scalar.plain s.inFlow (s.indent + 1).toNat c.line c.column {} c.rest
  return { s.push (.scalar .plain text) with cursor, keyAllowed := opensLine }

/-- Characters that a scalar without quotes does not begin with, whatever follows. -/
def isIndicator (c : Char) : Bool :=
  [',', '[', ']', '\x7b', '\x7d', '#', '&', '*', '!', '|', '>', '\'', '"', '%', '@', '\x60'].contains c

/-- May a scalar without quotes begin here? -/
def startsPlain (s : Lexer) (c : Char) (t : Text) : Bool :=
  if c = '-' then !t.head?.any isBlank
  else if c = '?' || c = ':' then !s.inFlow && !atBlank t
  else !isIndicator c && !isBlank c && !isBreak c

/-- Reads the token that begins with a character. -/
def lexToken (s : Lexer) (c : Char) (t : Text) : Option Lexer :=
  if s.cursor.column = 0 && c = '%' then s.lexDirective
  else if s.cursor.column = 0 && atMarker '-' (c :: t) then s.lexMarker .documentStart
  else if s.cursor.column = 0 && atMarker '.' (c :: t) then s.lexMarker .documentEnd
  else if c = '[' then s.lexFlowStart .flowSequence
  else if c = '\x7b' then s.lexFlowStart .flowMapping
  else if c = ']' then s.lexFlowEnd .flowSequenceEnd
  else if c = '\x7d' then s.lexFlowEnd .flowMappingEnd
  else if c = ',' then s.lexFlowEntry
  else if c = '-' && atBlank t then s.lexBlockEntry
  else if c = '?' && (s.inFlow || atBlank t) then s.lexKey
  else if c = ':' && (s.inFlow || atBlank t) then s.lexValue
  else if c = '*' then s.lexAnchor .reference
  else if c = '&' then s.lexAnchor .anchor
  else if c = '!' then s.lexTag
  else if c = '|' && !s.inFlow then s.lexBlockScalar .literal
  else if c = '>' && !s.inFlow then s.lexBlockScalar .folded
  else if c = '\'' then s.lexQuoted .singleQuoted
  else if c = '"' then s.lexQuoted .doubleQuoted
  else if s.startsPlain c t then s.lexPlain
  else none

/-- Reads tokens up to the end of the text, which has less than `size` characters. -/
def run (size : Nat) : Nat → Lexer → Option (List Token)
  | 0, _ => none
  | fuel + 1, s => do
    let s ← (s.skipSpace size).dropStale
    let s := s.closeBlocks s.cursor.column
    match s.cursor.rest with
    | [] => do
      let s ← s.endBlocks
      return (s.push .streamEnd).tokens.reverse
    | c :: t => do run size fuel (← s.lexToken c t)

end Lexer

/-- The tokens of a text. -/
def tokens? (t : Text) : Option (List Token) :=
  if t.all isAllowed then Lexer.run (t.length + 1) (t.length + 1) { cursor := { rest := t } } else none

end ShellCompletion.Yaml

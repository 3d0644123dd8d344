import ShellCompletion.Yaml.Token.Lexing

/-! The tree of a YAML document, in which references still stand for the nodes that they name. It is put together by
    the grammar of the parser of `libyaml`, whose events it has in their order, and anchors are numbered as `serde_yaml`
    numbers them. It is assumed of `serde_yaml` that a text of more than one document is refused, and that a text of
    none is read as an empty scalar. -/

namespace ShellCompletion.Yaml

/-- What may stand before a node. Anchors are numbered. -/
structure Properties where
  anchor : Option Nat := none
  tag : Option Text := none
deriving DecidableEq, Repr

inductive Tree where
  | scalar (properties : Properties) (style : ScalarStyle) (text : Text)
  | sequence (properties : Properties) (items : List Tree)
  | mapping (properties : Properties) (entries : List (Tree × Tree))
  | reference (anchor : Nat)
deriving Repr

namespace Tree

/-- What stands where nothing is written. -/
def empty : Tree := scalar {} .plain []

mutual

/-- How many signs announce the tree: one for a scalar or reference, two for a collection besides its contents. -/
def size : Tree → Nat
  | scalar .. | reference _ => 1
  | sequence _ items => 2 + sizeAll items
  | mapping _ entries => 2 + sizeEntries entries

def sizeAll : List Tree → Nat
  | [] => 0
  | t :: ts => size t + sizeAll ts

def sizeEntries : List (Tree × Tree) → Nat
  | [] => 0
  | (k, v) :: es => size k + size v + sizeEntries es

end

def withAnchor (properties : Properties) (t : Tree) : List (Nat × Tree) :=
  properties.anchor.toList.map (·, t)

mutual

/-- The anchored nodes, in the order in which they begin. -/
def anchored : Tree → List (Nat × Tree)
  | scalar p style text => withAnchor p (scalar p style text)
  | sequence p items => withAnchor p (sequence p items) ++ anchoredAll items
  | mapping p entries => withAnchor p (mapping p entries) ++ anchoredEntries entries
  | reference _ => []

def anchoredAll : List Tree → List (Nat × Tree)
  | [] => []
  | t :: ts => anchored t ++ anchoredAll ts

def anchoredEntries : List (Tree × Tree) → List (Nat × Tree)
  | [] => []
  | (k, v) :: es => anchored k ++ anchored v ++ anchoredEntries es

end

/-! ### From tokens -/

/-- The tokens that are left, the latest number of each anchor name, and the stems of tag handles. -/
structure Reader where
  tokens : List Token
  anchors : List (Text × Nat) := []
  tags : List (Text × Text) := []

/-- A step of reading a tree. -/
abbrev Read := StateT Reader Option

namespace Read

def fail {α : Type} : Read α := fun _ => none

/-- The next token. -/
def peek : Read Token := fun r => r.tokens.head?.map (·, r)

def skip : Read Unit := modify fun r => { r with tokens := r.tokens.drop 1 }

/-- Is the next token one of these? -/
def sees (ts : List Token) : Read Bool := return ts.contains (← peek)

/-- Numbers the node that a name is given to. The number is that of the names known before, so that a name given
    again shares its number with the next new one. -/
def define (name : Text) : Read Nat := fun r =>
  let number := r.anchors.length
  some (number, { r with anchors := (name, number) :: r.anchors.filter (·.1 != name) })

/-- The number of a name. -/
def lookUp (name : Text) : Read Nat := fun r => (r.anchors.lookup name).map (·, r)

/-- A tag with its handle replaced by the stem that it stands for. -/
def resolveTag (handle suffix : Text) : Read Text := fun r =>
  if handle.isEmpty then some (suffix, r) else (r.tags.lookup handle).map fun stem => (stem ++ suffix, r)

def anchorName : Read (Option Text) := do
  match ← peek with
  | .anchor name => skip; return some name
  | _ => return none

def tagName : Read (Option Text) := do
  match ← peek with
  | .tag handle suffix => skip; return some (← resolveTag handle suffix)
  | _ => return none

/-- The properties of a node: an anchor and a tag, in either order. -/
def properties : Read Properties := do
  let first ← anchorName
  let tag ← tagName
  let name ← if first.isNone && tag.isSome then anchorName else pure first
  match name with
  | none => return { tag }
  | some name => return { anchor := some (← define name), tag }

/-- Where nothing is written before one of these tokens, there is an empty scalar. -/
def emptyBefore (ts : List Token) (node : Read Tree) : Read Tree := do
  if ← sees ts then return empty else node

mutual

/-- Reads a node. A block may only begin where `block` says so, and a sequence at the indentation of its mapping
    only where `inMapping` says so. -/
def node : Nat → Bool → Bool → Read Tree
  | 0, _, _ => fail
  | fuel + 1, block, inMapping => do
    if let .reference name ← peek then
      skip
      return reference (← lookUp name)
    let p ← properties
    match ← peek with
    | .scalar style text => skip; return scalar p style text
    | .flowSequence => skip; return sequence p (← flowItems fuel true)
    | .flowMapping => skip; return mapping p (← flowEntries fuel true)
    | .blockEntry =>
      if inMapping then return sequence p (← plainItems fuel)
      else if p = {} then fail else return scalar p .plain []
    | .blockSequence =>
      if block then skip; return sequence p (← blockItems fuel)
      else if p = {} then fail else return scalar p .plain []
    | .blockMapping =>
      if block then skip; return mapping p (← blockEntries fuel)
      else if p = {} then fail else return scalar p .plain []
    | _ => if p = {} then fail else return scalar p .plain []

/-- Reads the items of a block sequence up to its end. -/
def blockItems : Nat → Read (List Tree)
  | 0 => fail
  | fuel + 1 => do
    match ← peek with
    | .blockEntry =>
      skip
      let item ← emptyBefore [.blockEntry, .blockEnd] (node fuel true false)
      return item :: (← blockItems fuel)
    | .blockEnd => skip; return []
    | _ => fail

/-- Reads the items of a sequence that is not indented. -/
def plainItems : Nat → Read (List Tree)
  | 0 => fail
  | fuel + 1 => do
    match ← peek with
    | .blockEntry =>
      skip
      let item ← emptyBefore [.blockEntry, .key, .value, .blockEnd] (node fuel true false)
      return item :: (← plainItems fuel)
    | _ => return []

/-- Reads the value behind a colon; without a colon it is empty. -/
def valueBefore : Nat → Bool → List Token → Read Tree
  | 0, _, _ => fail
  | fuel + 1, block, ts => do
    match ← peek with
    | .value => skip; emptyBefore ts (node fuel block block)
    | _ => return empty

/-- Reads the entries of a block mapping up to its end. -/
def blockEntries : Nat → Read (List (Tree × Tree))
  | 0 => fail
  | fuel + 1 => do
    match ← peek with
    | .key =>
      skip
      let k ← emptyBefore [.key, .value, .blockEnd] (node fuel true true)
      let v ← valueBefore fuel true [.key, .value, .blockEnd]
      return (k, v) :: (← blockEntries fuel)
    | .blockEnd => skip; return []
    | _ => fail

/-- Reads the items of a sequence in brackets up to the closing one; all but the first follow a comma. An entry of
    a mapping among them is a mapping by itself. -/
def flowItems : Nat → Bool → Read (List Tree)
  | 0, _ => fail
  | fuel + 1, first => do
    if ← sees [.flowSequenceEnd] then
      skip
      return []
    if !first then
      if ← sees [.flowEntry] then skip else fail
    match ← peek with
    | .flowSequenceEnd => skip; return []
    | .key =>
      skip
      let k ← if ← sees [.value, .flowEntry, .flowSequenceEnd] then do skip; pure empty else node fuel false false
      let v ← valueBefore fuel false [.flowEntry, .flowSequenceEnd]
      return mapping {} [(k, v)] :: (← flowItems fuel false)
    | _ =>
      let item ← node fuel false false
      return item :: (← flowItems fuel false)

/-- Reads the entries of a mapping in braces up to the closing one; all but the first follow a comma. -/
def flowEntries : Nat → Bool → Read (List (Tree × Tree))
  | 0, _ => fail
  | fuel + 1, first => do
    if ← sees [.flowMappingEnd] then
      skip
      return []
    if !first then
      if ← sees [.flowEntry] then skip else fail
    match ← peek with
    | .flowMappingEnd => skip; return []
    | .key =>
      skip
      let k ← emptyBefore [.value, .flowEntry, .flowMappingEnd] (node fuel false false)
      let v ← valueBefore fuel false [.flowEntry, .flowMappingEnd]
      return (k, v) :: (← flowEntries fuel false)
    | _ =>
      let k ← node fuel false false
      return (k, empty) :: (← flowEntries fuel false)

end

/-! ### Documents -/

def defaultTags : List (Text × Text) := [("!".toList, "!".toList), ("!!".toList, "tag:yaml.org,2002:".toList)]

/-- Reads the directives of a document: at most one version, which is 1.1 or 1.2, and tag handles, each given
    once. -/
def directives : Nat → Bool → List (Text × Text) → Read (List (Text × Text))
  | 0, _, _ => fail
  | fuel + 1, versioned, tags => do
    match ← peek with
    | .version major minor =>
      if versioned || major != 1 || (minor != 1 && minor != 2) then fail
      skip
      directives fuel true tags
    | .tagDirective handle stem =>
      if (tags.lookup handle).isSome then fail
      skip
      directives fuel versioned ((handle, stem) :: tags)
    | _ => return tags

/-- Reads the document at the start of a text: what stands behind its mark, or all if there is no mark. Directives
    must be followed by one. -/
def document (fuel : Nat) : Read Tree := do
  let announced :=
    match ← peek with
    | .version .. | .tagDirective .. => true
    | _ => false
  let tags ← directives fuel false []
  modify fun r => { r with tags := tags ++ defaultTags }
  match ← peek with
  | .documentStart =>
    skip
    match ← peek with
    | .version .. | .tagDirective .. | .documentStart | .documentEnd | .streamEnd => return empty
    | _ => node fuel true false
  | _ => if announced then fail else node fuel true false

end Read

/-- The tree of the only document in a text; a text without any counts as an empty scalar. -/
def ofTokens? (tokens : List Token) : Option Tree :=
  match tokens with
  | [.streamEnd] => some empty
  | _ => do
    let (tree, r) ← Read.document (3 * tokens.length + 3) { tokens }
    if r.tokens.dropWhile (· == .documentEnd) = [.streamEnd] then some tree else none

end Tree
end ShellCompletion.Yaml

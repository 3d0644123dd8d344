import ShellCompletion.Schema.Source
import ShellCompletion.Yaml.Node
import ShellCompletion.Yaml.Resolution

/-! Models in YAML. Where a type is expected the text of a scalar counts as it is written; only values without a
    type imposed on them are resolved. That is how `serde_yaml` reads into a type. -/

namespace ShellCompletion
namespace Yaml

def standardTag (name : Text) : Text := "tag:yaml.org,2002:".toList ++ name

/-- What a scalar denotes whose tag does not count. -/
def untaggedScalar? (style : ScalarStyle) (text : Text) : Option Value :=
  if style = .plain then resolve? text else some (.string text)

/-- What a scalar denotes whose tag is not one of the document's own. The standard tags force a type. -/
def taggedScalar? (tag text : Text) : Option Value :=
  if tag = standardTag "bool".toList then (bool? text).map .bool
  else if tag = standardTag "int".toList then
    match (integer? text).filter fitsWord with
    | some i => some (.number (.int i))
    | none => none
  else if tag = standardTag "float".toList then (float? text).map fun x => .number (.float x)
  else if tag = standardTag "null".toList then if isNull text then some .null else none
  else some (.string text)

/-- A tag that is the document's own. -/
def ownTag? (tag : Option Text) : Option Text := tag.filter fun t => t.head? = some '!'

/-- A value with the tag of its node, if that is the document's own. -/
def withOwnTag (tag : Option Text) (v : Value) : Value :=
  match ownTag? tag with
  | some t => .tagged (Value.bareTag t) v
  | none => v

def scalarValue? (tag : Option Text) (style : ScalarStyle) (text : Text) : Option Value :=
  match tag, ownTag? tag with
  | some t, none => taggedScalar? t text
  | _, _ => (untaggedScalar? style text).map (withOwnTag tag)

mutual

/-- A node as an untyped value. Keys must not stand twice. -/
def value? : Node → Option Value
  | .scalar tag style text => scalarValue? tag style text
  | .sequence tag items => (values? items).map fun vs => withOwnTag tag (.sequence vs)
  | .mapping tag entries => ((pairs? entries).bind Value.mapping?).map (withOwnTag tag)

def values? : List Node → Option (List Value)
  | [] => some []
  | n :: ns => do return (← value? n) :: (← values? ns)

def pairs? : List (Node × Node) → Option (List (Value × Value))
  | [] => some []
  | (k, v) :: es => do return (← value? k, ← value? v) :: (← pairs? es)

end

namespace Node

/-- Nothing is written here, except perhaps a tag. -/
def isNothing : Node → Bool
  | scalar _ .plain [] => true
  | _ => false

def text? : Node → Option Text
  | scalar _ _ text => some text
  | _ => none

def bool? : Node → Option Bool
  | scalar tag style text =>
    if style = .plain || (style = .literal && tag = some (standardTag "bool".toList)) then Yaml.bool? text else none
  | _ => none

/-- A plain null, or no text at all, stands for nothing. -/
def optional? (n : Node) : Option (Option Node) :=
  match n with
  | scalar none .plain text => if text.isEmpty || isNull text then some none else some (some n)
  | scalar (some tag) .plain text =>
    if tag = standardTag "null".toList then if isNull text then some none else none else some (some n)
  | _ => some (some n)

def items? (n : Node) : Option (List Node) :=
  match n with
  | sequence _ items => some items
  | n => if n.isNothing then some [] else none

def record? (names : List Text) (n : Node) : Option (List (Option Node)) :=
  match n with
  | mapping _ entries => do
    let fields ← entries.mapM fun (key, value) => do return (← text? key, value)
    Source.select? names fields
  | n => if n.isNothing then Source.select? names [] else none

def entries? (n : Node) : Option (List (Value × Value)) :=
  match n with
  | mapping _ entries =>
    match (pairs? entries).bind Value.mapping? with
    | some (.mapping entries) => some entries
    | _ => none
  | n => if n.isNothing then some [] else none

instance : Source Node where
  text? := text?
  bool? := bool?
  optional? := optional?
  items? := items?
  record? := record?
  value? := Yaml.value?
  entries? := entries?

end Node
end Yaml
end ShellCompletion

import ShellCompletion.Failure
import ShellCompletion.Schema.OfValue
import ShellCompletion.Text.Space
import ShellCompletion.Yaml.Writer

/-! The terse schema, for models written by hand: subcommands are keyed by their names, and options are typed. -/

namespace ShellCompletion
namespace Terse
open Source

/-- An option as it is declared. -/
structure OptionEntry where
  names : List Text
  kind : Option Text
  values : Option (List Value)
  description : Option Text

/-- A command as it is declared. Its subcommands are not read yet. -/
structure CommandEntry where
  name : Option Text := none
  description : Option Text := none
  options : List OptionEntry := []
  subcommands : List (Value × Value) := []

def optionFields : List Text := ["names".toList, "type".toList, "values".toList, "description".toList]

def commandFields : List Text := ["name".toList, "description".toList, "options".toList, "subcommands".toList]

/-! ### Reading -/

/-- Aliases in one text are separated by spaces and commas. -/
def splitNames (t : Text) : List Text := t.pieces fun c => Text.isSpace c || c = ','

def stringOf? : Value → Option Text
  | .string t => some t
  | _ => none

/-- Aliases are a list of strings, or one string. -/
def namesOf? : Value → Option (List Text)
  | .string t => some (splitNames t)
  | .sequence items => items.mapM stringOf?
  | _ => none

variable {α : Type} [Source α]

def optionEntry? (x : α) : Option OptionEntry := do
  match ← record? optionFields x with
  | [names, kind, values, description] =>
    return {
      names := ← namesOf? (← value? (← names))
      kind := ← optional text? kind
      values := ← optional (list? value?) values
      description := ← optional text? description }
  | _ => none

def commandEntry? (x : α) : Option CommandEntry := do
  match ← record? commandFields x with
  | [name, description, options, subcommands] =>
    return {
      name := ← optional text? name
      description := ← optional text? description
      options := ← withDefault [] (list? optionEntry?) options
      subcommands := ← withDefault [] entries? subcommands }
  | _ => none

/-! ### Meaning -/

/-- A value as a word: scalars by their text, and everything else written out. Null is no word. -/
def word? : Value → Option Text
  | .null => none
  | .bool true => some "true".toList
  | .bool false => some "false".toList
  | .number n => some n.text
  | .string t => some t
  | v => (Yaml.write? v).map Text.trim

/-- The kind of an option that is not typed follows from whether it has values. -/
def kindOf (command : Text) (o : OptionEntry) : Except Failure ValueKind :=
  match o.kind, o.values with
  | some t, _ =>
    match ValueKind.ofText? t with
    | some kind => .ok kind
    | none => .error (.unknownKind (Text.join ['|'] o.names) command t)
  | none, some _ => .ok .enum
  | none, none => .ok .boolean

/-- The option that is declared in `command`. -/
def option (command : Text) (o : OptionEntry) : Except Failure CommandOption := do
  let kind ← kindOf command o
  let base := { CommandOption.ofKind o.names kind with description := o.description }
  match o.values with
  | none => return base
  | some values =>
    if kind.takesArgument then return base.withCandidates (values.filterMap word?)
    else throw (.flagWithValues (Text.join ['|'] o.names) command)

/-- The name that a key gives to a subcommand. -/
def keyName (command : Text) (key : Value) : Except Failure Text :=
  match word? key with
  | some name => .ok name
  | none => .error (.unnamedSubcommand command)

/-- What is declared for a subcommand; null declares nothing. -/
def subcommandEntry (command name : Text) (value : Value) : Except Failure CommandEntry :=
  match value with
  | .null => .ok {}
  | v =>
    match commandEntry? v with
    | none => .error (.malformedSubcommand command name)
    | some entry => if entry.name.isSome then .error (.renamedSubcommand command name) else .ok entry

/-- The command that is declared under a name, with a tree of at most so many levels. -/
def commandWithin : Nat → Text → CommandEntry → Except Failure Command
  | levels, name, entry => do
    let options ← entry.options.mapM (option name)
    let subcommands ← entry.subcommands.mapM fun (key, value) => do
      let sub ← keyName name key
      let subentry ← subcommandEntry name sub value
      match levels with
      | 0 => throw (.malformedSubcommand name sub)
      | levels + 1 => commandWithin levels sub subentry
    return { name, description := entry.description, options, subcommands }

/-- The model that is declared. -/
def model (entry : CommandEntry) : Except Failure Command :=
  match entry.name with
  | none => .error .missingName
  | some name => commandWithin levelLimit name entry

end Terse
end ShellCompletion

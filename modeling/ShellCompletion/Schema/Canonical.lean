import ShellCompletion.Schema.Source

/-! The canonical schema: a command model written out field by field. -/

namespace ShellCompletion.Canonical
open Source

variable {α : Type} [Source α]

def optionFields : List Text := ["names".toList, "takes_argument".toList, "completion_candidates".toList,
  "file_valued".toList, "description".toList]

def commandFields : List Text := ["name".toList, "description".toList, "options".toList, "subcommands".toList]

def option? (x : α) : Option CommandOption := do
  match ← record? optionFields x with
  | [names, takesArgument, candidates, fileValued, description] =>
    return {
      names := ← list? text? (← names)
      takesArgument := ← withDefault false bool? takesArgument
      candidates := ← optional (list? text?) candidates
      fileValued := ← withDefault false bool? fileValued
      description := ← optional text? description }
  | _ => none

/-- A command whose tree has at most so many levels. -/
def commandWithin? : Nat → α → Option Command
  | 0, _ => none
  | levels + 1, x => do
    match ← record? commandFields x with
    | [name, description, options, subcommands] =>
      return {
        name := ← text? (← name)
        description := ← optional text? description
        options := ← withDefault [] (list? option?) options
        subcommands := ← withDefault [] (list? (commandWithin? levels)) subcommands }
    | _ => none

def command? (x : α) : Option Command := commandWithin? levelLimit x

end ShellCompletion.Canonical

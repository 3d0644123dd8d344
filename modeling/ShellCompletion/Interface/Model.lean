import ShellCompletion.Interface.Completed
import ShellCompletion.Logged

/-! The command model of an interface. Hidden commands and arguments are left out, and so are those that go by
    their position: there is no option to complete after. -/

namespace ShellCompletion

def ValueHint.isFile : ValueHint → Bool
  | file | directory | anyPath | executable => true
  | other => false

namespace Argument

/-- The values that are shown. -/
def shownValues (a : Argument) : List Text := (a.values.filter (!·.isHidden)).map (·.name)

/-- The option of a model that has the names of the argument. -/
def toOption (a : Argument) : CommandOption :=
  let o :=
    if !a.action.takesValue then CommandOption.flag a.names
    else if !a.shownValues.isEmpty then (CommandOption.argument a.names).withCandidates a.shownValues
    else if a.hint.isFile then (CommandOption.argument a.names).withFiles
    else CommandOption.argument a.names
  match a.help with
  | some text => o.withDescription text
  | none => o

def option? (a : Argument) : Option CommandOption :=
  if a.isPositional || a.isHidden then none else some a.toOption

end Argument

namespace Interface

mutual

/-- The command of a model with its options, and with the subcommands that are not hidden. -/
def toModel : Interface → Logged Command
  | ⟨c, subs⟩ => do
    let options := c.arguments.filterMap Argument.option?
    let subcommands ← toModels subs
    Logged.debug ("Read ".toList ++ Text.decimal options.length ++ " options and ".toList ++
      Text.decimal subcommands.length ++ " subcommands of ".toList ++ Failure.quoted c.name)
    return { name := c.name, description := c.about, options, subcommands }

def toModels : List Interface → Logged (List Command)
  | [] => return []
  | i :: is => do
    if i.command.isHidden then toModels is
    else
      let model ← toModel i
      return model :: (← toModels is)

end

/-- The command model of the whole interface. -/
def model (i : Interface) : Logged Command := i.completed.toModel

end Interface
end ShellCompletion

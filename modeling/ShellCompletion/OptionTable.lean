import ShellCompletion.Failure
import ShellCompletion.Model.Command
import ShellCompletion.Text.Space

/-! The options of one command, sorted by whether they take a value. -/

namespace ShellCompletion

/-- A word of a model must be one word for the shell, too. -/
def checkWord (command : Text) (use : WordUse) (word : Text) : Except Failure Unit :=
  if word.isEmpty then .error (.emptyWord command use)
  else if word.hasSpace then .error (.spacedWord command use word)
  else .ok ()

/-- An option with a value, by all its aliases. -/
structure ArgumentOption where
  names : List Text
  policy : Policy
deriving DecidableEq, Repr

/-- The aliases of flags, the aliases of options with a value, and how each of these values is completed. -/
structure OptionTable where
  flags : List Text
  arguments : List Text
  argumentOptions : List ArgumentOption
deriving DecidableEq, Repr

namespace OptionTable

/-- Checks aliases in order against those seen before, and returns all that are then seen. -/
def checkNames (command : Text) (seen : List Text) : List Text → Except Failure (List Text)
  | [] => .ok seen
  | name :: names => do
    checkWord command .optionName name
    if seen.contains name then .error (.duplicateOption command name) else checkNames command (name :: seen) names

/-- Checks one option after those whose aliases were seen. Candidates matter only where they are offered. -/
def checkOption (command : Text) (seen : List Text) (o : CommandOption) : Except Failure (List Text) := do
  if o.names.isEmpty then .error (.namelessOption command)
  let seen ← checkNames command seen o.names
  ((o.policy.bind Policy.candidates).getD []).forM (checkWord command .completionValue)
  return seen

/-- Every option has aliases, no two of the command's options share one, and all words are words for the shell. -/
def check (c : Command) : Except Failure Unit := do
  let _ ← c.options.foldlM (checkOption c.name) []

/-- The table of a list of options. -/
def ofOptions (options : List CommandOption) : OptionTable where
  flags := (options.filter (!·.takesArgument)).flatMap (·.names)
  arguments := (options.filter (·.takesArgument)).flatMap (·.names)
  argumentOptions := options.filterMap fun o => o.policy.map (⟨o.names, ·⟩)

/-- The table of a command whose options are all in order. -/
def ofCommand (c : Command) : Except Failure OptionTable := do
  check c
  return ofOptions c.options

end OptionTable
end ShellCompletion

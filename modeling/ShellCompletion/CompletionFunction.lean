import ShellCompletion.Logged
import ShellCompletion.OptionTable
import ShellCompletion.Shell.Identifier
import ShellCompletion.Shell.Quoting

/-! The completion function of each command: what it offers, and its shell source. -/

namespace ShellCompletion

/-- A subcommand as its parent's function sees it. -/
structure SubcommandLink where
  name : Text
  identifier : Text
deriving DecidableEq, Repr

/-- The completion function of one command. -/
structure CompletionFunction where
  identifier : Text
  /-- The command names from the root down to the command. -/
  path : List Text
  description : Option Text
  options : OptionTable
  subcommands : List SubcommandLink
deriving DecidableEq, Repr

namespace CompletionFunction

/-- What every function name starts with. -/
def defaultStem : Text := "_tabsmith".toList

/-- The name of the function for the command at `path`. -/
def identifierOf (stem : Text) (path : List Text) : Text := stem ++ Shell.Identifier.ofPath path

/-- The empty path names no function. -/
def identifierOf? (stem : Text) (path : List Text) : Except Failure Text := do
  return stem ++ (← Shell.Identifier.ofPath? path)

/-- Checks the names of subcommands in order against those seen before. -/
def checkSubcommands (command : Text) (seen : List Text) : List Text → Except Failure Unit
  | [] => .ok ()
  | name :: names => do
    checkWord command .subcommandName name
    if seen.contains name then .error (.repeatedSubcommand command name)
    else checkSubcommands command (name :: seen) names

/-- The function of a command, if the command can be completed at all. -/
def ofNode (stem : Text) (node : Command.Node) : Except Failure CompletionFunction := do
  let c := node.command
  checkWord c.name .commandName c.name
  checkSubcommands c.name [] c.subcommandNames
  let options ← OptionTable.ofCommand c
  return {
    identifier := identifierOf stem node.path
    path := node.path
    description := c.description
    options
    subcommands := c.subcommandNames.map fun name => ⟨name, identifierOf stem (node.path ++ [name])⟩ }

/-- The command line that runs the command. -/
def displayPath (f : CompletionFunction) : Text := Text.join [' '] f.path

def subcommandNames (f : CompletionFunction) : List Text := f.subcommands.map (·.name)

/-- Every word that is offered when no value of an option is completed. -/
def candidates (f : CompletionFunction) : List Text :=
  f.options.flags ++ f.options.arguments ++ f.subcommandNames

/-- The functions of all commands of a tree, root first. -/
def ofTree (stem : Text) (root : Command) : Logged (List CompletionFunction) :=
  root.nodes.mapM fun node => do
    let f ← Logged.lift (ofNode stem node)
    Logged.debug ("Generated completion function ".toList ++ f.identifier ++ " for ".toList ++
      Failure.quoted f.displayPath)
    return f

/-! ### Source -/

/-- How the value of an option is completed in the source. -/
def policyLines : Policy → List Text
  | .oneOf values => [
      "      mapfile -t COMPREPLY < <(compgen -W ".toList ++ Shell.wordList values ++
        " -- \"$\x7bCURR_WORD\x7d\") # values".toList]
  | .files => [
      "      compopt -o filenames 2>/dev/null".toList,
      "      mapfile -t COMPREPLY < <(compgen -f -- \"$\x7bCURR_WORD\x7d\") # files".toList]
  | .freeText => ["      COMPREPLY=() # free text".toList]

/-- The arm of the `case` block for one option with a value. -/
def armLines (o : ArgumentOption) : List Text :=
  ["    ".toList ++ Shell.casePattern o.names ++ ")".toList] ++ policyLines o.policy ++
    ["      return 0".toList, "      ;;".toList]

/-- The `case` block for the options with values; without any there is no block. -/
def caseLines (options : List ArgumentOption) : List Text :=
  if options.isEmpty then []
  else ["".toList, "  case \"$\x7bPREV_WORD\x7d\" in".toList] ++ options.flatMap armLines ++ ["  esac".toList]

/-- The shell source of the function, line by line. -/
def lines (f : CompletionFunction) : List Text :=
  ["# Generates completions for the options and subcommands of the `".toList ++ Shell.comment f.displayPath ++
      "` command.".toList] ++
    f.description.toList.map (fun d => "# ".toList ++ Shell.comment d) ++
    ["function ".toList ++ f.identifier ++ "() \x7b".toList,
      "  # Get completion data".toList,
      "  local CURR_WORD=$\x7bCOMP_WORDS[COMP_CWORD]\x7d".toList,
      "  local PREV_WORD=$\x7bCOMP_WORDS[COMP_CWORD-1]\x7d".toList,
      "".toList,
      "  local COMMANDS=".toList ++ Shell.wordList f.subcommandNames,
      "  local FLAG_OPTS=".toList ++ Shell.wordList f.options.flags,
      "  local ARG_OPTS=".toList ++ Shell.wordList f.options.arguments] ++
    caseLines f.options.argumentOptions ++
    ["".toList,
      "  mapfile -t COMPREPLY < <(compgen -W ".toList ++
        "\"$\x7bFLAG_OPTS\x7d $\x7bARG_OPTS\x7d $\x7bCOMMANDS\x7d\" -- \"$\x7bCURR_WORD\x7d\")".toList,
      "\x7d".toList]

/-- The shell source of the function. -/
def source (f : CompletionFunction) : Text := Text.unlines f.lines

end CompletionFunction
end ShellCompletion

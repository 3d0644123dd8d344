import ShellCompletion.CompletionFunction

/-! The entry point of a script: it follows the subcommands typed so far and calls the completion function of the
    deepest one. -/

namespace ShellCompletion

/-- Where each subcommand leads from one function. -/
structure Transition where
  source : Text
  targets : List SubcommandLink
deriving DecidableEq, Repr

/-- The function that the shell calls for the root command and its aliases. -/
structure EntryFunction where
  identifier : Text
  /-- The function of the root command. -/
  root : Text
  transitions : List Transition
  aliases : List Text
deriving DecidableEq, Repr

namespace EntryFunction

/-- What the entry point's name starts with. -/
def stem : Text := "_complete".toList

/-- The name of the entry point of a root command. -/
def identifierOf (root : Command) : Except Failure Text :=
  if root.name.isEmpty then .error .unnamedRoot else .ok (stem ++ Shell.Identifier.ofPath [root.name])

/-- The entry point of a tree with the functions of its commands, of which the root's is the first. -/
def ofFunctions (root : Command) (functions : List CompletionFunction) (aliases : List Text) :
    Except Failure EntryFunction := do
  let identifier ← identifierOf root
  match functions with
  | [] => .error .noRootFunction
  | first :: _ =>
    return {
      identifier
      root := first.identifier
      transitions := (functions.filter (!·.subcommands.isEmpty)).map fun f => ⟨f.identifier, f.subcommands⟩
      aliases }

/-! ### Source -/

/-- The arm of the inner `case` block for one subcommand. -/
def targetLine (link : SubcommandLink) : Text :=
  "          ".toList ++ Shell.casePattern [link.name] ++ ") node=".toList ++ link.identifier ++ " ;;".toList

/-- The arm of the outer `case` block for one function. -/
def transitionLines (t : Transition) : List Text :=
  ["      ".toList ++ t.source ++ ")".toList,
    "        case \"$\x7bCOMP_WORDS[i]\x7d\" in".toList] ++
    t.targets.map targetLine ++
    ["          *) break ;;".toList,
      "        esac".toList,
      "        ;;".toList]

/-- The shell source of the entry point, line by line. -/
def lines (e : EntryFunction) : List Text :=
  ["# Bash completion entry point function.".toList,
    "# ".toList ++ e.identifier ++ " walks the subcommands typed so far and delegates to the".toList,
    "# completion function of the deepest subcommand reached.".toList,
    "function ".toList ++ e.identifier ++ "() \x7b".toList,
    "  local node=".toList ++ e.root,
    "  local i".toList,
    "  for (( i = 1; i < COMP_CWORD; i++ )); do".toList,
    "    case $\x7bnode\x7d in".toList] ++
    e.transitions.flatMap transitionLines ++
    ["      *)".toList,
      "        break".toList,
      "        ;;".toList,
      "    esac".toList,
      "  done".toList,
      "".toList,
      "  \"$\x7bnode\x7d\"".toList,
      "\x7d".toList]

/-- A list as it is written in English: commas, and `and` before the last item. -/
def enumeration : List Text → Text
  | [] => []
  | [a] => a
  | [a, b] => a ++ " and ".toList ++ b
  | a :: b :: c :: items => Text.join ", ".toList ((a :: b :: c :: items).dropLast) ++ ", and ".toList ++
      ((c :: items).getLast (List.cons_ne_nil c items))

/-- The registration of the entry point for every alias, line by line. -/
def registrationLines (e : EntryFunction) : List Text :=
  ["# Define a completion specification (a compspec) for the".toList,
    "# ".toList ++ enumeration (e.aliases.map fun a => "`".toList ++ Shell.comment a ++ "`".toList) ++
      (if e.aliases.length == 1 then " command.".toList else " commands.".toList),
    "# Shell function `".toList ++ e.identifier ++ "` generates the completions for the current word.".toList,
    "# `-o default` falls back to the default Bash and Readline filename".toList,
    "# completions when the function generated no matches.".toList,
    "complete -F ".toList ++ e.identifier ++ " -o default ".toList ++
      Text.join [' '] (e.aliases.map Shell.word)]

/-- The shell source of the entry point. -/
def source (e : EntryFunction) : Text := Text.unlines e.lines

/-- The shell source of the registration. -/
def registration (e : EntryFunction) : Text := Text.unlines e.registrationLines

end EntryFunction
end ShellCompletion

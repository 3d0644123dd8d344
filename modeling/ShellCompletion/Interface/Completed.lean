import ShellCompletion.Interface.Basic

/-! Interfaces with all that is not declared but follows: arguments inherited from above, and the ways to get help.
    This is what `build` of `clap` makes of a command. It is assumed that it hands global arguments down before it adds
    the flags for help and for the version, that these stand behind all other arguments, and that the command for help
    comes last and repeats the commands beside it without their arguments. -/

namespace ShellCompletion.Interface

/-- What a command takes over from the commands above it. -/
structure Inherited where
  helpFlag : Bool := true
  versionFlag : Bool := true
  helpCommand : Bool := true
  globals : List Argument := []

/-- The name of the command that shows help. -/
def helpName : Text := "help".toList

def helpAbout : Text := "Print this message or the help of the given subcommand(s)".toList

mutual

/-- A command as a topic of help: what it is called and about, without any arguments. -/
def topic : Interface → Interface
  | ⟨c, subs⟩ => ⟨{ name := c.name, about := c.about, isHidden := c.isHidden }, topics subs⟩

def topics : List Interface → List Interface
  | [] => []
  | i :: is => topic i :: topics is

end

/-- The command that shows help about these commands and about itself. -/
def help (subs : List Interface) : Interface :=
  let command : Declaration := { name := helpName, about := some helpAbout }
  ⟨command, topics subs ++ [⟨command, []⟩]⟩

namespace Inherited

/-- What a command declares and inherits. An argument of its own comes before an inherited one. -/
def arguments (inherited : Inherited) (c : Declaration) : List Argument :=
  c.arguments ++ inherited.globals.filter fun a => c.arguments.all (·.id != a.id)

/-- What the commands below a command inherit. -/
def below (inherited : Inherited) (c : Declaration) : Inherited where
  helpFlag := inherited.helpFlag && c.helpFlag
  versionFlag := inherited.versionFlag && c.versionFlag
  helpCommand := inherited.helpCommand && c.helpCommand
  globals := (inherited.arguments c).filter (·.isGlobal)

/-- A command with all its arguments. -/
def complete (inherited : Inherited) (c : Declaration) : Declaration :=
  let flags := inherited.below c
  { c with
    arguments := inherited.arguments c ++ (if flags.helpFlag then [.showHelp] else []) ++
      (if flags.versionFlag && c.hasVersion then [.showVersion] else []) }

end Inherited

mutual

/-- An interface below commands from which it inherits. A command with subcommands has one for help after them. -/
def completedBelow (inherited : Inherited) : Interface → Interface
  | ⟨c, subs⟩ =>
    let below := inherited.below c
    ⟨inherited.complete c,
      allCompletedBelow below subs ++ if below.helpCommand && !subs.isEmpty then [help subs] else []⟩

def allCompletedBelow (inherited : Inherited) : List Interface → List Interface
  | [] => []
  | i :: is => completedBelow inherited i :: allCompletedBelow inherited is

end

/-- The whole interface. -/
def completed (i : Interface) : Interface := i.completedBelow {}

end ShellCompletion.Interface

import ShellCompletion.Model.Command

/-! Command line interfaces: commands with the arguments that they take. -/

namespace ShellCompletion

/-- What an argument does when it is given. -/
inductive ArgumentAction where
  | set
  | append
  | setTrue
  | setFalse
  | count
  | showHelp
  | showVersion
deriving DecidableEq, Repr

def ArgumentAction.takesValue : ArgumentAction → Bool
  | set | append => true
  | _ => false

/-- What a value stands for. -/
inductive ValueHint where
  | file
  | directory
  | anyPath
  | executable
  | other
deriving DecidableEq, Repr

/-- One of the values that an argument takes. Hidden ones are taken, but not shown. -/
structure PossibleValue where
  name : Text
  isHidden : Bool := false
deriving DecidableEq, Repr

/-- An argument of a command. Without a short and a long name it goes by its position. -/
structure Argument where
  id : Text
  short : Option Char := none
  long : Option Text := none
  /-- More short names, which count only where there is a first one. -/
  shortAliases : List Char := []
  /-- More long names, which count only where there is a first one. -/
  longAliases : List Text := []
  help : Option Text := none
  action : ArgumentAction := .set
  /-- The values that are taken; if none is listed, any. -/
  values : List PossibleValue := []
  hint : ValueHint := .other
  isHidden : Bool := false
  /-- Does every command below the argument's own take it, too? -/
  isGlobal : Bool := false
  isRequired : Bool := false
  /-- Is the empty text refused? -/
  isFilled : Bool := false
deriving DecidableEq, Repr

namespace Argument

def isPositional (a : Argument) : Bool := a.short.isNone && a.long.isNone

def shortNames (a : Argument) : List Char := a.short.elim [] (· :: a.shortAliases)

def longNames (a : Argument) : List Text := a.long.elim [] (· :: a.longAliases)

/-- The names with their dashes, short ones first. -/
def names (a : Argument) : List Text :=
  a.shortNames.map (['-', ·]) ++ a.longNames.map (['-', '-'] ++ ·)

/-- The argument that shows help. Where a command or one of its arguments has a longer text to show, `clap` describes it
    by "Print help (see more with '--help')". Longer texts are left out here; nothing else depends on them. -/
def showHelp : Argument :=
  { id := "help".toList, short := some 'h', long := some "help".toList, help := some "Print help".toList,
    action := .showHelp }

/-- The argument that shows the version. -/
def showVersion : Argument :=
  { id := "version".toList, short := some 'V', long := some "version".toList,
    help := some "Print version".toList, action := .showVersion }

end Argument

/-- A command without its subcommands. -/
structure Declaration where
  name : Text
  about : Option Text := none
  hasVersion : Bool := false
  isHidden : Bool := false
  /-- Is there an argument that shows help, here and below? -/
  helpFlag : Bool := true
  /-- Is there an argument that shows the version, where there is one, here and below? -/
  versionFlag : Bool := true
  /-- Is there a command that shows help, here and below? -/
  helpCommand : Bool := true
  needsSubcommand : Bool := false
  arguments : List Argument := []
deriving DecidableEq, Repr

structure Interface where
  command : Declaration
  subcommands : List Interface := []
deriving Repr

namespace Interface

def subcommand? (i : Interface) (name : Text) : Option Interface :=
  i.subcommands.find? (·.command.name == name)

end Interface
end ShellCompletion

import ShellCompletion.Interface.Completed

/-! The words of a command line, matched with an interface. A word is a subcommand, an option, the value of the
    option before it, or an argument by its position; behind a double dash it can only be the last. Words are matched
    and faults found in the order in which the parser of `clap` does it. -/

namespace ShellCompletion

/-- Why a command line does not run a command. -/
inductive UsageFault where
  | showHelp
  | showVersion
  /-- Nothing was given where a subcommand is needed. -/
  | nothingGiven
  | missingSubcommand
  | missingArgument
  | unknownArgument
  | unknownSubcommand
  | invalidValue
  /-- A value was attached to an option that takes none. -/
  | needlessValue
  | givenTwice
deriving DecidableEq, Repr

/-- Help and the version are what was asked for; all else is an error. -/
def UsageFault.exitCode : UsageFault → Nat
  | showHelp | showVersion => 0
  | _ => 2

namespace Interface

/-- The arguments that were given to one command, by their ids, with their values. -/
abbrev Given := List (Text × List Text)

/-- A command line that fits an interface: the commands from the root down, and what was given to each. -/
abbrev Matches := List (Text × Given)

/-- How far a command line has been matched within one command. -/
structure Progress where
  given : Given := []
  /-- The latest argument, which does not count before the next one. It may still lack its value. -/
  pending : Option (Argument × Option Text) := none
  /-- How many arguments were given by their position. -/
  positions : Nat := 0
  /-- Was there a double dash? -/
  isTrailing : Bool := false

/-! ### Arguments -/

/-- Is this a value that the argument takes? -/
def accepts (a : Argument) (value : Text) : Bool :=
  !(a.isFilled && value.isEmpty) && (a.values.isEmpty || a.values.any (·.name == value))

namespace Progress

/-- Does the latest argument lack its value? -/
def isAwaiting (p : Progress) : Bool := p.pending.any (·.2.isNone)

/-- The progress with values of an argument added to those given before. -/
def add (p : Progress) (a : Argument) (values : List Text) : Progress :=
  { p with given := p.given.filter (·.1 != a.id) ++ [(a.id, (p.given.lookup a.id).getD [] ++ values)] }

/-- Counts an argument. Only those that collect values can be given twice. -/
def count (p : Progress) (a : Argument) (value : Option Text) : Except UsageFault Progress :=
  let isGiven := (p.given.lookup a.id).isSome
  match a.action, value with
  | .showHelp, _ => .error .showHelp
  | .showVersion, _ => .error .showVersion
  | .set, none | .append, none => .error .invalidValue
  | .set, some v =>
    if isGiven then .error .givenTwice else if accepts a v then .ok (p.add a [v]) else .error .invalidValue
  | .append, some v => if accepts a v then .ok (p.add a [v]) else .error .invalidValue
  | .setTrue, _ | .setFalse, _ => if isGiven then .error .givenTwice else .ok (p.add a [])
  | .count, _ => .ok (p.add a [])

/-- Counts the latest argument. -/
def settle (p : Progress) : Except UsageFault Progress :=
  match p.pending with
  | none => .ok p
  | some (a, value) => { p with pending := none }.count a value

/-- Takes an argument that is complete. -/
def take (p : Progress) (a : Argument) (value : Option Text) : Except UsageFault Progress := do
  (← p.settle).count a value

/-- Takes an argument that is not complete yet, or whose value is not judged yet. -/
def await (p : Progress) (a : Argument) (value : Option Text) : Except UsageFault Progress := do
  return { ← p.settle with pending := some (a, value) }

end Progress

/-! ### Words -/

def shortArgument? (i : Interface) (c : Char) : Option Argument :=
  i.command.arguments.find? (·.shortNames.contains c)

def longArgument? (i : Interface) (name : Text) : Option Argument :=
  i.command.arguments.find? (·.longNames.contains name)

def positionals (i : Interface) : List Argument := i.command.arguments.filter (·.isPositional)

/-- A long option, behind its dashes, to which a value may be attached. -/
def matchLong (i : Interface) (p : Progress) (word : Text) : Except UsageFault Progress :=
  match i.longArgument? (word.takeWhile (· != '=')), word.dropWhile (· != '=') with
  | none, _ => .error .unknownArgument
  | some a, '=' :: value => if a.action.takesValue then p.take a (some value) else .error .needlessValue
  | some a, _ => if a.action.takesValue then p.await a none else p.take a none

/-- Short options, behind their dash. What follows one that takes a value is the value. -/
def matchShort (i : Interface) (p : Progress) : Text → Except UsageFault Progress
  | [] => .ok p
  | c :: cs =>
    match i.shortArgument? c with
    | none => .error .unknownArgument
    | some a =>
      if a.action.takesValue then
        match cs with
        | [] => p.await a none
        | '=' :: value => p.take a (some value)
        | value => p.take a (some value)
      else
        match p.take a none with
        | .error f => .error f
        | .ok p => i.matchShort p cs

/-- A word that is an argument by its position. A word too many is the fault that shows, whatever the latest
    argument lacks. -/
def matchPosition (i : Interface) (p : Progress) (word : Text) : Except UsageFault Progress :=
  match i.positionals[p.positions]? with
  | some a => { p with positions := p.positions + 1 }.await a (some word)
  | none =>
    if i.subcommands.isEmpty || (p.isTrailing && (i.subcommand? word).isSome) then .error .unknownArgument
    else .error .unknownSubcommand

/-- A word that is neither a subcommand nor behind a double dash. -/
def matchWord (i : Interface) (p : Progress) (word : Text) : Except UsageFault Progress :=
  match word with
  | ['-', '-'] => .ok { p with isTrailing := true }
  | '-' :: '-' :: name => i.matchLong p name
  | '-' :: c :: cs => i.matchShort p (c :: cs)
  | _ =>
    match p.pending with
    | some (a, none) => .ok { p with pending := some (a, some word) }
    | _ => i.matchPosition p word

/-! ### Command lines -/

/-- What comes of asking for help about a command by its path. -/
def helpOutcome (i : Interface) : List Text → UsageFault
  | [] => .showHelp
  | name :: names =>
    if name = helpName && !names.isEmpty then .unknownSubcommand
    else
      match i.subcommand? name with
      | some sub => sub.helpOutcome names
      | none => .unknownSubcommand

/-- What was given to a command when all its words are matched. -/
def finish (i : Interface) (p : Progress) (hasSubcommand : Bool) : Except UsageFault Given := do
  let p ← p.settle
  if !hasSubcommand && i.command.needsSubcommand then
    throw (if p.given.isEmpty then .nothingGiven else .missingSubcommand)
  if i.command.arguments.any fun a => a.isRequired && (p.given.lookup a.id).isNone then throw .missingArgument
  return p.given

/-- The subcommand that a word names, where it can name one. -/
def entered? (i : Interface) (p : Progress) (word : Text) : Option Interface :=
  if p.isTrailing || p.isAwaiting then none else i.subcommand? word

/-- Matches words with a command of which some have been matched. -/
def matchFrom (i : Interface) (p : Progress) : List Text → Except UsageFault Matches
  | [] => do return [(i.command.name, ← i.finish p false)]
  | word :: words =>
    match i.entered? p word with
    | some sub =>
      if word = helpName then .error (i.helpOutcome words)
      else do
        let below ← sub.matchFrom {} words
        return (i.command.name, ← i.finish p true) :: below
    | none => do
      let p ← if p.isTrailing then i.matchPosition p word else i.matchWord p word
      i.matchFrom p words

/-- Matches a command line, without the name of the program. -/
def matchWords (i : Interface) (words : List Text) : Except UsageFault Matches := i.completed.matchFrom {} words

end Interface
end ShellCompletion

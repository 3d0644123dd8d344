import ShellCompletion.Model.Policy

/-! The command model: a tree of commands, each with its options. -/

namespace ShellCompletion

/-- An option of a command with all its aliases. -/
structure CommandOption where
  names : List Text
  takesArgument : Bool := false
  candidates : Option (List Text) := none
  fileValued : Bool := false
  description : Option Text := none
deriving DecidableEq, Repr

namespace CommandOption

/-- An option without a value. -/
def flag (names : List Text) : CommandOption := { names }

/-- An option with a value. -/
def argument (names : List Text) : CommandOption := { names, takesArgument := true }

/-- An option whose value is of the declared kind. -/
def ofKind (names : List Text) (kind : ValueKind) : CommandOption :=
  { names, takesArgument := kind.takesArgument, fileValued := kind.isFile }

def withCandidates (o : CommandOption) (values : List Text) : CommandOption := { o with candidates := some values }

def withFiles (o : CommandOption) : CommandOption := { o with fileValued := true }

def withDescription (o : CommandOption) (description : Text) : CommandOption :=
  { o with description := some description }

/-- How the value is completed; a flag has none. -/
def policy (o : CommandOption) : Option Policy :=
  if o.takesArgument then some (.resolve o.candidates o.fileValued) else none

def hasName (o : CommandOption) (name : Text) : Bool := o.names.contains name

/-- The aliases as one word of a message. -/
def label (o : CommandOption) : Text := Text.join ['|'] o.names

end CommandOption

/-- A command with its options and subcommands, in order of declaration. -/
structure Command where
  name : Text
  description : Option Text := none
  options : List CommandOption := []
  subcommands : List Command := []
deriving Repr

namespace Command

def withDescription (c : Command) (description : Text) : Command := { c with description := some description }

def withOption (c : Command) (o : CommandOption) : Command := { c with options := c.options ++ [o] }

def withSubcommand (c sub : Command) : Command := { c with subcommands := c.subcommands ++ [sub] }

def subcommand? (c : Command) (name : Text) : Option Command := c.subcommands.find? (·.name == name)

def option? (c : Command) (name : Text) : Option CommandOption := c.options.find? (·.hasName name)

def subcommandNames (c : Command) : List Text := c.subcommands.map (·.name)

/-- Neither options nor subcommands. -/
def isLeaf (c : Command) : Bool := c.options.isEmpty && c.subcommands.isEmpty

mutual

/-- The number of commands of the tree. -/
def nodeCount : Command → Nat
  | ⟨_, _, _, subs⟩ => 1 + nodeCountAll subs

def nodeCountAll : List Command → Nat
  | [] => 0
  | c :: cs => c.nodeCount + nodeCountAll cs

end

/-- A command of a tree with the names from the root down to it. -/
structure Node where
  path : List Text
  command : Command
deriving Repr

mutual

/-- Every command of the tree that hangs below `above`: a command before those below it, and in order of
    declaration. -/
def nodesBelow (above : List Text) : Command → List Node
  | ⟨name, description, options, subs⟩ =>
    ⟨above ++ [name], ⟨name, description, options, subs⟩⟩ :: nodesBelowAll (above ++ [name]) subs

def nodesBelowAll (above : List Text) : List Command → List Node
  | [] => []
  | c :: cs => c.nodesBelow above ++ nodesBelowAll above cs

end

/-- Every command of the tree, root first. -/
def nodes (c : Command) : List Node := c.nodesBelow []

mutual

/-- Every command of the tree: a command before those below it, and the last subcommand first. -/
def lastFirst : Command → List Command
  | ⟨name, description, options, subs⟩ => ⟨name, description, options, subs⟩ :: lastFirstAll subs

def lastFirstAll : List Command → List Command
  | [] => []
  | c :: cs => lastFirstAll cs ++ c.lastFirst

end

end Command
end ShellCompletion

import ShellCompletion.Interface.Model
import ShellCompletion.Tool.Generate
import ShellCompletion.Tool.Init

/-! The tool as a whole: command lines become requests, and requests are run. -/

namespace ShellCompletion.Tool

/-- What the tool can be asked to do. -/
inductive Request where
  | generate (request : Generate)
  | init (request : Init)
  /-- The completion script of the tool itself. There is one for Bash only. -/
  | completion (shell : Text)
deriving DecidableEq, Repr

structure Invocation where
  verbose : Bool
  request : Request
deriving DecidableEq, Repr

/-! ### Command lines -/

def isGiven (g : Interface.Given) (id : Text) : Bool := (g.lookup id).isSome

def values (g : Interface.Given) (id : Text) : List Text := (g.lookup id).getD []

def value? (g : Interface.Given) (id : Text) : Option Text := (values g id).head?

def generateOf (g : Interface.Given) : Except UsageFault Generate :=
  match value? g modelId with
  | none => .error .missingArgument
  | some model => .ok {
      model
      name := value? g nameId
      script := value? g scriptId
      launcher := isGiven g launcherId
      force := isGiven g forceId
      aliases := values g aliasesId
      lenient := isGiven g lenientId }

def initOf (g : Interface.Given) : Init :=
  let default : Init := {}
  { name := (value? g nameId).getD default.name
    output := (value? g outputId).getD default.output
    force := isGiven g forceId }

def bash : Text := "bash".toList

def requestOf (command : Text) (g : Interface.Given) : Except UsageFault Request :=
  if command = generateName then (generateOf g).map .generate
  else if command = initName then .ok (.init (initOf g))
  else if command = completionName then .ok (.completion ((value? g shellId).getD bash))
  else .error .unknownSubcommand

/-- What a command line asks for. -/
def parse (words : List Text) : Except UsageFault Invocation := do
  let levels ← interface.matchWords words
  match levels with
  | [_, (command, g)] =>
    return { verbose := levels.any (isGiven ·.2 verboseId), request := ← requestOf command g }
  | _ => .error .missingSubcommand

/-! ### Runs -/

variable {m : Type → Type} [Host m]

/-- Prints the completion script of the tool itself. -/
def printCompletion (shell : Text) : m Unit := do
  if shell = bash then
    let script ← Host.ofLogged do
      let model ← interface.model
      Script.generate [name] model banner
    Host.print script

/-- Does what the request asks for. -/
def Request.run : Request → m Unit
  | .generate request => request.run
  | .init request => request.run
  | .completion shell => printCompletion shell

end ShellCompletion.Tool

import ShellCompletion.Logged
import ShellCompletion.Model.Command
import ShellCompletion.Text.Space

/-! What a command model must keep to before a script is generated from it. -/

namespace ShellCompletion
namespace Validation

/-- How command names are judged: strictly, or leniently as any word. -/
inductive Strictness where
  | strict
  | lenient
deriving DecidableEq, Repr

/-- A letter or digit, then letters, digits, dots, underscores, plus and minus signs. -/
def isRegularName : Text → Bool
  | [] => false
  | c :: t => c.isAlphanum && t.all fun d => d.isAlphanum || ['.', '_', '+', '-'].contains d

/-- One or two minus signs, a character that is neither a minus sign nor a space, and no space after it. -/
def isOptionName : Text → Bool
  | '-' :: '-' :: c :: t => c != '-' && !Text.isSpace c && !Text.hasSpace t
  | '-' :: c :: t => c != '-' && !Text.isSpace c && !Text.hasSpace t
  | _ => false

def checkName (mode : Strictness) (name : Text) : Except Failure Unit :=
  if name.isBlank then .error .blankName
  else if name.hasSpace then .error (.spacedName name)
  else if mode = .strict ∧ isRegularName name = false then .error (.irregularName name)
  else .ok ()

/-- Subcommands of one command have different names. -/
def checkSubcommands (command : Text) (seen : List Text) : List Text → Except Failure Unit
  | [] => .ok ()
  | name :: names =>
    if seen.contains name then .error (.duplicateSubcommand name command)
    else checkSubcommands command (name :: seen) names

/-- Checks aliases in order against those seen before, and returns all that are then seen. -/
def checkNames (command : Text) (seen : List Text) : List Text → Except Failure (List Text)
  | [] => .ok seen
  | name :: names =>
    if !isOptionName name then .error (.irregularOption name command)
    else if seen.contains name then .error (.duplicateOption command name)
    else checkNames command (name :: seen) names

def checkCandidate (option command candidate : Text) : Except Failure Unit :=
  if candidate.isBlank then .error (.blankCandidate option command)
  else if candidate.hasSpace then .error (.spacedCandidate candidate option command)
  else .ok ()

/-- What a flag says about a value it does not take. -/
def flagWarnings (command : Text) (o : CommandOption) : List Text :=
  (if o.candidates.isSome then
    ["Flag ".toList ++ Failure.quoted o.label ++ " of ".toList ++ Failure.quoted command ++
      " declares completion candidates; they are ignored".toList] else []) ++
  (if o.fileValued then
    ["Flag ".toList ++ Failure.quoted o.label ++ " of ".toList ++ Failure.quoted command ++
      " is marked file-valued; it is ignored".toList] else [])

/-- Candidates are judged where they are offered; a flag only draws warnings. -/
def checkValues (command : Text) (o : CommandOption) : Logged Unit :=
  if o.takesArgument then Logged.lift ((o.candidates.getD []).forM (checkCandidate o.label command))
  else (flagWarnings command o).forM Logged.warn

/-- Checks one option after those whose aliases were seen. -/
def checkOption (command : Text) (seen : List Text) (o : CommandOption) : Logged (List Text) := do
  if o.names.isEmpty then Logged.fail (.undeclaredNames command)
  let seen ← Logged.lift (checkNames command seen o.names)
  checkValues command o
  return seen

/-- Checks a command without those below it. -/
def checkCommand (mode : Strictness) (c : Command) : Logged Unit := do
  Logged.lift (checkName mode c.name)
  Logged.lift (checkSubcommands c.name [] c.subcommandNames)
  let _ ← c.options.foldlM (checkOption c.name) []

end Validation

/-- Checks every command of a model: a command before those below it, and the last subcommand first. -/
def Command.validate (mode : Validation.Strictness) (model : Command) : Logged Unit :=
  model.lastFirst.forM (Validation.checkCommand mode)

end ShellCompletion

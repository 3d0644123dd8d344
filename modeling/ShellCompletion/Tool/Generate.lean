import ShellCompletion.Host
import ShellCompletion.ModelFile
import ShellCompletion.Script
import ShellCompletion.Tool.Interface

/-! The command that writes the completion script of a model file, and if asked for a launcher to try it with. -/

namespace ShellCompletion.Tool

structure Generate where
  /-- The path of the model file. -/
  model : Text
  /-- A name for the root command in place of the model's. -/
  name : Option Text := none
  /-- The path of the script; a single dash stands for the output. -/
  script : Option Text := none
  launcher : Bool := false
  force : Bool := false
  aliases : List Text := []
  lenient : Bool := false
deriving DecidableEq, Repr

namespace Generate

variable {m : Type → Type} [Host m]

def mode (g : Generate) : Validation.Strictness := if g.lenient then .lenient else .strict

/-- What the script is registered for: the command, also as the name of a script, and then what was asked for. -/
def registered (g : Generate) (name : Text) : List Text :=
  [name, name ++ ".sh".toList, name ++ ".bash".toList] ++ g.aliases

/-- Can a command name be used as the name of a file? -/
def isFileName (name : Text) : Bool :=
  !name.isEmpty && name != ['.'] && name != ['.', '.'] && !name.any fun c => c == '/' || c == '\\'

def checkFileName (name : Text) : Except Failure Unit :=
  if isFileName name then .ok () else .error (.unusableFileName name)

/-- The path of the script, if it is to be written to a file. Names become file names only where they have to. -/
def target (g : Generate) (name : Text) : Except Failure (Option Text) := do
  if g.script.isNone || g.launcher then checkFileName name
  return match g.script with
    | none => some (name ++ "_completion".toList)
    | some path => if path = ['-'] then none else some path

/-- The path of the launcher, beside the script. -/
def launcherPath (target : Option Text) (name : Text) : Text :=
  match target.bind Path.parent? with
  | some directory => Path.append directory name
  | none => name

def launcherLines (name : Text) : List Text := [
  "#!/usr/bin/env bash".toList,
  "#".toList,
  "# Launcher for `".toList ++ name ++ "`, generated by ".toList ++ banner ++ ".".toList,
  "# Point APP_HOME at the installation of ".toList ++ name ++ " and adjust the command below.".toList,
  "".toList,
  "APP_HOME=\"$\x7bAPP_HOME:-$(cd \"$(dirname \"$\x7bBASH_SOURCE[0]\x7d\")\" && pwd)\x7d\"".toList,
  "exec \"$\x7bAPP_HOME\x7d/bin/".toList ++ name ++ "\" \"$@\"".toList]

/-- A script that runs the command from where it is installed. -/
def launcherText (name : Text) : Text := Text.unlines (launcherLines name)

/-- The model of the file, under the name that it is to have. -/
def readModel (g : Generate) : m Command := do
  match ← Host.read g.model with
  | .error fault => Host.fail (.unreadableFile g.model fault)
  | .ok text =>
    let model ← Host.ofLogged (Command.ofValidText (Format.ofPath g.model) g.mode text)
    match g.name with
    | none => return model
    | some name =>
      Host.log ⟨.debug, "Overriding command name ".toList ++ Failure.quoted model.name ++ " with ".toList ++
        Failure.quoted name⟩
      return { model with name }

/-- Writes a file and says so. -/
def create (g : Generate) (path text : Text) (executable : Bool) : m Unit := do
  Host.write path text executable g.force
  Host.info ("Created: ".toList ++ path)

def run (g : Generate) : m Unit := do
  Host.info ("Generating completion script from: ".toList ++ g.model)
  let model ← g.readModel
  let script ← Host.ofLogged (Script.generate (g.registered model.name) model banner)
  let target ← Host.ofLogged (Logged.lift (g.target model.name))
  let launcher := launcherPath target model.name
  if let some path := target then Host.ensureFree path g.force
  if g.launcher then
    Host.ensureFree launcher g.force
    g.create launcher (launcherText model.name) true
  match target with
  | some path => g.create path script false
  | none => Host.print script

end Generate
end ShellCompletion.Tool

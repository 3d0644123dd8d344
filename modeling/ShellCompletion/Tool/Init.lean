import ShellCompletion.Host
import ShellCompletion.Tool.Interface

/-! The command that writes a sample model file. -/

namespace ShellCompletion.Tool

structure Init where
  name : Text := "my-cli".toList
  /-- The directory of the model file. -/
  output : Text := ['.']
  force : Bool := false
deriving DecidableEq, Repr

namespace Init

variable {m : Type → Type} [Host m]

def checkName (name : Text) : Except Failure Unit :=
  if name.isEmpty || name.any (fun c => c == '/' || c == '\\') then .error (.invalidCommandName name) else .ok ()

/-- The name in single quotes. -/
def quotedName (name : Text) : Text :=
  ['\''] ++ name.flatMap (fun c => if c = '\'' then ['\'', '\''] else [c]) ++ ['\'']

/-- What the sample says before the name. -/
def noteLines : List Text := [
  "# tabsmith command model".toList,
  "#".toList,
  "# Options list their aliases in `names`. `type` is one of boolean, string,".toList,
  "# int, float, host, enum, file, path or directory; options with `values`".toList,
  "# default to enum and offer exactly those values. Subcommands are keyed by".toList,
  "# name and nest to any depth.".toList,
  "".toList]

/-- What the sample says after the name. -/
def bodyLines : List Text := [
  "description: Sample command line tool".toList,
  "".toList,
  "options:".toList,
  "  - names: -h --help".toList,
  "    description: Show this help message and exit".toList,
  "  - names: -V --version".toList,
  "    description: Print version information and exit".toList,
  "  - names: -v --verbose".toList,
  "".toList,
  "subcommands:".toList,
  "  build:".toList,
  "    description: Build a target".toList,
  "    options:".toList,
  "      - names: -o --output".toList,
  "        type: file".toList,
  "      - names: -j --jobs".toList,
  "        type: int".toList,
  "      - names: -p --profile".toList,
  "        values: [dev, release]".toList,
  "".toList,
  "  remote:".toList,
  "    description: Manage remotes".toList,
  "    subcommands:".toList,
  "      add:".toList,
  "        options:".toList,
  "          - names: --url".toList,
  "            type: host".toList,
  "      remove:".toList,
  "        options:".toList,
  "          - names: -f --force".toList]

/-- The sample model of a command. -/
def sampleText (name : Text) : Text :=
  Text.unlines (noteLines ++ ["name: ".toList ++ quotedName name] ++ bodyLines)

/-- The path of the sample. -/
def path (i : Init) : Text := Path.append i.output (i.name ++ ".yaml".toList)

/-- What can be done with the sample. -/
def adviceLines (i : Init) : List Text := [
  "".toList,
  "Next steps:".toList,
  "  1. Describe the options and subcommands of `".toList ++ i.name ++ "` in ".toList ++ i.path,
  "  2. Run: tabsmith generate ".toList ++ i.path ++ " -o ".toList ++ i.name ++ "_completion".toList,
  "  3. Source ".toList ++ i.name ++ "_completion from ~/.bashrc".toList]

/-- Writes the sample, then prints what can be done with it. The tool breaks off where its advice cannot be printed;
    that is a failure of the output here, and the sample is there in either case. -/
def run (i : Init) : m Unit := do
  Host.info ("Initializing command model: ".toList ++ i.name)
  Host.ofLogged (Logged.lift (checkName i.name))
  Host.ensureFree i.path i.force
  Host.write i.path (sampleText i.name) false i.force
  Host.info ("Created: ".toList ++ i.path)
  Host.print (Text.unlines i.adviceLines)

end Init
end ShellCompletion.Tool

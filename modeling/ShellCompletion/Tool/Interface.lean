import ShellCompletion.Interface.Matching

/-! The command line interface of the tool. -/

namespace ShellCompletion.Tool

/-- What the tool is called. -/
def name : Text := "tabsmith".toList

/-- Name and version, as they are stamped into scripts. -/
def banner : Text := name ++ " 0.3.0".toList

/-! ### Arguments -/

def verboseId : Text := "verbose".toList

def modelId : Text := "model".toList

def nameId : Text := "name".toList

def scriptId : Text := "completion_script".toList

def launcherId : Text := "write_command_script".toList

def forceId : Text := "force".toList

def aliasesId : Text := "aliases".toList

def lenientId : Text := "lenient".toList

def outputId : Text := "output".toList

def shellId : Text := "shell".toList

def verbose : Argument :=
  { id := verboseId, short := some 'v', long := some "verbose".toList, action := .setTrue, isGlobal := true,
    help := some "Enable verbose logging".toList }

def generateArguments : List Argument := [
  { id := modelId, hint := .file, isRequired := true, isFilled := true,
    help := some "Command model file (.yaml, .yml or .json)".toList },
  { id := nameId, short := some 'n', long := some "name".toList,
    help := some "Name of the command to complete (defaults to the model's name)".toList },
  { id := scriptId, short := some 'o', long := some "completion-script".toList, hint := .file, isFilled := true,
    help := some "Path of the completion script to write (`-` for stdout)".toList },
  { id := launcherId, short := some 'w', long := some "write-command-script".toList, action := .setTrue,
    help := some "Also write a sample `<name>` launcher script next to the completion script".toList },
  { id := forceId, short := some 'f', long := some "force".toList, action := .setTrue,
    help := some "Overwrite existing files".toList },
  { id := aliasesId, short := some 'a', long := some "alias".toList, action := .append,
    help := some "Additional command names to register the completion for".toList },
  { id := lenientId, long := some "lenient".toList, action := .setTrue,
    help := some "Accept command names outside the strict naming rules".toList }]

def initArguments : List Argument := [
  { id := nameId, help := some "Command name".toList },
  { id := outputId, short := some 'o', long := some "output".toList, hint := .directory,
    help := some "Output directory".toList },
  { id := forceId, short := some 'f', long := some "force".toList, action := .setTrue,
    help := some "Overwrite an existing model file".toList }]

/-- The shells by name. -/
def shellNames : List Text := ["bash".toList, "elvish".toList, "fish".toList, "powershell".toList, "zsh".toList]

def completionArguments : List Argument := [
  { id := shellId, values := shellNames.map ({ name := · }),
    help := some "Shell to generate completions for (e.g. bash, zsh)".toList }]

/-! ### Commands -/

def generateName : Text := "generate".toList

def initName : Text := "init".toList

def completionName : Text := "completion".toList

def interface : Interface :=
  ⟨{ name, hasVersion := true, needsSubcommand := true, arguments := [verbose],
     about := some "CLI for tabsmith - bash completion script generator".toList },
    [⟨{ name := generateName, arguments := generateArguments,
        about := some "Generate a bash completion script from a command model file".toList }, []⟩,
      ⟨{ name := initName, arguments := initArguments,
         about := some "Write a sample command model file".toList }, []⟩,
      ⟨{ name := completionName, arguments := completionArguments,
         about := some "Print the completion script for tabsmith itself".toList }, []⟩]⟩

end ShellCompletion.Tool

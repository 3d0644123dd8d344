import ShellCompletion.Text.Escaped

/-! Everything that can go wrong, by cause, with its message and exit code. -/

namespace ShellCompletion

/-- What a word of a model is used for. -/
inductive WordUse where
  | commandName
  | subcommandName
  | optionName
  | completionValue
deriving DecidableEq, Repr

def WordUse.name : WordUse → Text
  | commandName => "command name".toList
  | subcommandName => "subcommand name".toList
  | optionName => "option name".toList
  | completionValue => "completion value".toList

/-- Why a file could not be read. -/
inductive ReadFault where
  | missing
  | isDirectory
  | notDirectory
  | notText
  | nameTooLong
  /-- A path with a null character names nothing. -/
  | unusablePath
deriving DecidableEq, Repr

def ReadFault.message : ReadFault → Text
  | missing => "No such file or directory (os error 2)".toList
  | isDirectory => "Is a directory (os error 21)".toList
  | notDirectory => "Not a directory (os error 20)".toList
  | notText => "stream did not contain valid UTF-8".toList
  | nameTooLong => "File name too long (os error 36)".toList
  | unusablePath => "file name contained an unexpected NUL byte".toList

/-- The causes of failure. -/
inductive Failure where
  /-- The empty path of command names has no identifier. -/
  | emptyPath
  | noAlias
  | invalidAlias (word : Text)
  | unusableFileName (name : Text)
  | invalidCommandName (name : Text)
  | duplicateOption (command option : Text)
  /-- The model declares an option that cannot be typed. -/
  | namelessOption (command : Text)
  | emptyWord (command : Text) (use : WordUse)
  | spacedWord (command : Text) (use : WordUse) (word : Text)
  | repeatedSubcommand (command subcommand : Text)
  | unnamedRoot
  | unreadableFile (path : Text) (fault : ReadFault)
  | malformedYaml
  | malformedJson
  | missingName
  | unnamedSubcommand (command : Text)
  | malformedSubcommand (command subcommand : Text)
  | renamedSubcommand (command subcommand : Text)
  | unknownKind (option command kind : Text)
  | flagWithValues (option command : Text)
  /-- Validation asks for more than generation does. -/
  | blankName
  | spacedName (name : Text)
  | irregularName (name : Text)
  | duplicateSubcommand (subcommand command : Text)
  | undeclaredNames (command : Text)
  | irregularOption (option command : Text)
  | blankCandidate (option command : Text)
  | spacedCandidate (candidate option command : Text)
  | fileExists (path : Text)
  /-- The file system refused, or the output. -/
  | io
  | malformedDocument
  | noRootFunction
deriving DecidableEq, Repr

namespace Failure

/-- The classes of failure that a caller can tell apart by the exit code. -/
inductive Kind where
  | invalidArgument
  | duplicateOption
  | invalidCommandModel
  | config
  | validation
  | fileExists
  | io
  | json
  | internal
deriving DecidableEq, Repr

def kind : Failure → Kind
  | emptyPath | noAlias | invalidAlias _ | unusableFileName _ | invalidCommandName _ => .invalidArgument
  | duplicateOption .. => .duplicateOption
  | namelessOption _ | emptyWord .. | spacedWord .. | repeatedSubcommand .. | unnamedRoot => .invalidCommandModel
  | unreadableFile .. | malformedYaml | malformedJson | missingName | unnamedSubcommand _ | malformedSubcommand ..
  | renamedSubcommand .. | unknownKind .. | flagWithValues .. => .config
  | blankName | spacedName _ | irregularName _ | duplicateSubcommand .. | undeclaredNames _ | irregularOption ..
  | blankCandidate .. | spacedCandidate .. => .validation
  | fileExists _ => .fileExists
  | io => .io
  | malformedDocument => .json
  | noRootFunction => .internal

/-- The exit codes of `sysexits.h`. -/
def Kind.exitCode : Kind → Nat
  | invalidArgument => 64
  | duplicateOption | invalidCommandModel | validation | json => 65
  | internal => 70
  | fileExists => 73
  | io => 74
  | config => 78

def exitCode (f : Failure) : Nat := f.kind.exitCode

/-- Is the command model itself at fault? -/
def isModelDefect (f : Failure) : Bool :=
  match f.kind with
  | .duplicateOption | .invalidCommandModel | .validation => true
  | _ => false

/-- A text between apostrophes. -/
def quoted (t : Text) : Text := ['\''] ++ t ++ ['\'']

/-- What went wrong, without the class of the failure. -/
def detail : Failure → Text
  | emptyPath => "Cannot sanitize an empty command path".toList
  | noAlias => "At least one root command alias is required".toList
  | invalidAlias word => "Invalid root command alias ".toList ++ quoted word.escaped
  | unusableFileName name =>
    "Command name ".toList ++ quoted name ++ " cannot be used as a file name; pass -o".toList
  | invalidCommandName name => "Invalid command name ".toList ++ quoted name
  | duplicateOption command option =>
    "Duplicate option ".toList ++ quoted option ++ " in command ".toList ++ quoted command
  | namelessOption command | undeclaredNames command =>
    "Command ".toList ++ quoted command ++ " declares an option without names".toList
  | emptyWord command use => "Command ".toList ++ quoted command ++ " has an empty ".toList ++ use.name
  | spacedWord command use word =>
    "Command ".toList ++ quoted command ++ " has ".toList ++ use.name ++ [' '] ++ quoted word.escaped ++
      " containing whitespace".toList
  | repeatedSubcommand command subcommand =>
    "Command ".toList ++ quoted command ++ " declares subcommand ".toList ++ quoted subcommand ++
      " more than once".toList
  | unnamedRoot => "Root command name yields an empty identifier".toList
  | unreadableFile path fault =>
    "Failed to read file ".toList ++ quoted path ++ ": ".toList ++ fault.message
  | malformedYaml => "YAML parse error".toList
  | malformedJson => "JSON parse error".toList
  | missingName => "Model is missing 'name'".toList
  | unnamedSubcommand command => "Command ".toList ++ quoted command ++ " has a subcommand without a name".toList
  | malformedSubcommand command subcommand =>
    "Invalid subcommand ".toList ++ quoted (command ++ [' '] ++ subcommand)
  | renamedSubcommand command subcommand =>
    "Subcommand ".toList ++ quoted (command ++ [' '] ++ subcommand) ++
      " is named by its key and cannot set 'name'".toList
  | unknownKind option command kind =>
    "Option ".toList ++ quoted option ++ " of ".toList ++ quoted command ++ ": Unknown value type: ".toList ++ kind
  | flagWithValues option command =>
    "Option ".toList ++ quoted option ++ " of ".toList ++ quoted command ++
      " is a flag and cannot declare values".toList
  | blankName => "Command name cannot be empty".toList
  | spacedName name => "Invalid command name ".toList ++ quoted name ++ ": must not contain whitespace".toList
  | irregularName name =>
    "Invalid command name ".toList ++ quoted name ++
      ": must start with a letter or digit and contain only letters, digits, '.', '_', '+' or '-'".toList
  | duplicateSubcommand subcommand command =>
    "Duplicate subcommand name ".toList ++ quoted subcommand ++ " in command ".toList ++ quoted command
  | irregularOption option command =>
    "Invalid option name ".toList ++ quoted option ++ " in command ".toList ++ quoted command ++
      ": must start with '-' and contain no whitespace".toList
  | blankCandidate option command =>
    "Option ".toList ++ quoted option ++ " of ".toList ++ quoted command ++
      " has an empty completion candidate".toList
  | spacedCandidate candidate option command =>
    "Completion candidate ".toList ++ quoted candidate ++ " of option ".toList ++ quoted option ++ " in ".toList ++
      quoted command ++ " contains whitespace".toList
  | fileExists path => path ++ " exists. Specify -f to overwrite.".toList
  | io => "IO error".toList
  | malformedDocument => "JSON error".toList
  | noRootFunction => "No completion function for the root command".toList

/-- What each class of failure says before the detail. -/
def Kind.heading : Kind → Text
  | invalidArgument => "Invalid argument: ".toList
  | invalidCommandModel => "Invalid command model: ".toList
  | config => "Configuration error: ".toList
  | validation => "Validation error: ".toList
  | internal => "Internal error: ".toList
  | duplicateOption | fileExists | io | json => []

/-- The message shown to the user. -/
def message (f : Failure) : Text := f.kind.heading ++ f.detail

end Failure
end ShellCompletion

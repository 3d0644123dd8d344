import ShellCompletion.Text.Basic

/-! What a value of an option may be: the declared kind of the value, and how the shell completes it. -/

namespace ShellCompletion

/-- The declared kind of an option's value. A `boolean` option takes no value. -/
inductive ValueKind where
  | boolean
  | string
  | int
  | float
  | host
  | enum
  | file
  | path
  | directory
deriving DecidableEq, Repr

namespace ValueKind

def name : ValueKind → Text
  | boolean => "boolean".toList
  | string => "string".toList
  | int => "int".toList
  | float => "float".toList
  | host => "host".toList
  | enum => "enum".toList
  | file => "file".toList
  | path => "path".toList
  | directory => "directory".toList

def all : List ValueKind := [boolean, string, int, float, host, enum, file, path, directory]

/-- The words that declare each kind. -/
def spellings : List (Text × ValueKind) := [
  ("boolean".toList, boolean), ("bool".toList, boolean), ("flag".toList, boolean),
  ("string".toList, string), ("str".toList, string), ("text".toList, string),
  ("int".toList, int), ("integer".toList, int), ("long".toList, int),
  ("float".toList, float), ("double".toList, float), ("number".toList, float),
  ("host".toList, host), ("hostname".toList, host), ("address".toList, host),
  ("enum".toList, enum), ("choice".toList, enum),
  ("file".toList, file),
  ("path".toList, path),
  ("directory".toList, directory), ("dir".toList, directory)]

/-- The kind that a word declares, whatever the case of its letters. No character outside ASCII has a letter of
    a spelling as its lower case, so the ASCII case map decides. -/
def ofText? (t : Text) : Option ValueKind := spellings.lookup (t.map Char.toLower)

def takesArgument : ValueKind → Bool
  | boolean => false
  | _ => true

def isFile : ValueKind → Bool
  | file | path | directory => true
  | _ => false

end ValueKind

/-- How the value of an option is completed. -/
inductive Policy where
  | oneOf (values : List Text)
  | files
  | freeText
deriving DecidableEq, Repr

namespace Policy

/-- Listed candidates come before file names. -/
def resolve (candidates : Option (List Text)) (fileValued : Bool) : Policy :=
  match candidates with
  | some values => oneOf values
  | none => if fileValued then files else freeText

def candidates : Policy → Option (List Text)
  | oneOf values => some values
  | _ => none

def label : Policy → Text
  | oneOf _ => "values".toList
  | files => "files".toList
  | freeText => "free text".toList

end Policy
end ShellCompletion

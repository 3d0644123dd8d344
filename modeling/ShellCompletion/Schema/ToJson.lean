import ShellCompletion.Json.Writer
import ShellCompletion.Model.Command

/-! Models as JSON values, in the canonical schema. Absent descriptions and candidates are left out. -/

namespace ShellCompletion

namespace Json

/-- A list of texts. -/
def texts (ts : List Text) : Json := array (ts.map string)

/-- The field of an optional value, if there is one. -/
def optionalField {α : Type} (name : Text) (toJson : α → Json) (x : Option α) : List (Text × Json) :=
  x.toList.map fun a => (name, toJson a)

end Json

def Policy.toJson : Policy → Json
  | oneOf values => .object [("kind".toList, .string "enumerated".toList), ("candidates".toList, .texts values)]
  | files => .object [("kind".toList, .string "filename".toList)]
  | freeText => .object [("kind".toList, .string "freetext".toList)]

def CommandOption.toJson (o : CommandOption) : Json :=
  .object ([("names".toList, .texts o.names), ("takes_argument".toList, .bool o.takesArgument)] ++
    Json.optionalField "completion_candidates".toList .texts o.candidates ++
    [("file_valued".toList, .bool o.fileValued)] ++
    Json.optionalField "description".toList .string o.description)

mutual

def Command.toJson : Command → Json
  | ⟨name, description, options, subs⟩ =>
    .object ([("name".toList, .string name)] ++ Json.optionalField "description".toList .string description ++
      [("options".toList, .array (options.map CommandOption.toJson)),
        ("subcommands".toList, .array (Command.toJsonAll subs))])

def Command.toJsonAll : List Command → List Json
  | [] => []
  | c :: cs => c.toJson :: Command.toJsonAll cs

end

end ShellCompletion

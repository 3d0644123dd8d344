import ShellCompletion.Model.Command

/-! Command models written down step by step: commands are begun and finished like brackets, and one option at a
    time is prepared before it is added. -/

namespace ShellCompletion

/-- A model that is not finished. -/
structure Draft where
  /-- The commands that were begun and not finished, the innermost first. -/
  begun : List Command := []
  option : Option CommandOption := none

namespace Draft

/-- What a step may lack. -/
inductive Lack where
  | command
  | option
deriving DecidableEq, Repr

def Lack.message : Lack → Text
  | command => "no command".toList
  | option => "no option".toList

/-- The innermost command. -/
def innermost (d : Draft) : Except Lack Command :=
  match d.begun with
  | c :: _ => .ok c
  | [] => .error .command

def beginCommand (name : Text) (d : Draft) : Draft := { d with begun := { name } :: d.begun }

/-- Describes the innermost command. -/
def describe (description : Text) (d : Draft) : Except Lack Draft :=
  match d.begun with
  | c :: cs => .ok { d with begun := c.withDescription description :: cs }
  | [] => .error .command

/-- Prepares an option in place of the one prepared before. -/
def prepare (o : CommandOption) (d : Draft) : Draft := { d with option := some o }

/-- The prepared option. -/
def prepared (d : Draft) : Except Lack CommandOption :=
  match d.option with
  | some o => .ok o
  | none => .error .option

/-- Adds the prepared option to the innermost command. -/
def addOption (d : Draft) : Except Lack Draft :=
  match d.begun, d.option with
  | [], _ => .error .command
  | _ :: _, none => .error .option
  | c :: cs, some o => .ok ⟨c.withOption o :: cs, none⟩

/-- Finishes the innermost command as a subcommand of the next. -/
def finishCommand (d : Draft) : Except Lack Draft :=
  match d.begun with
  | sub :: c :: cs => .ok { d with begun := c.withSubcommand sub :: cs }
  | _ => .error .command

end Draft
end ShellCompletion

import ShellCompletion.Logged
import ShellCompletion.Path

/-! What a command line tool does to the world: it reads and writes files, logs events, prints, and may fail. The
    commands of the tool are written once against this interface. -/

namespace ShellCompletion

/-- A world for commands to run in. -/
class Host (m : Type → Type) extends Monad m where
  fail {α : Type} : Failure → m α
  log : Event → m Unit
  /-- Puts a text out as a whole, and fails if the output does not take it. -/
  print : Text → m Unit
  read : (path : Text) → m (Except ReadFault Text)
  isPresent : (path : Text) → m Bool
  /-- Makes every directory on a path that is missing. -/
  makeDirectories : (path : Text) → m Unit
  /-- Puts a whole file in its place at once. A file that is there is replaced only where that is asked for. -/
  place : (path text : Text) → (executable overwrite : Bool) → m Unit

namespace Host

variable {m : Type → Type} [Host m]

/-- What a computation logged, and its result. -/
def ofLogged {α : Type} (x : Logged α) : m α := do
  x.events.forM log
  match x.result with
  | .ok a => return a
  | .error f => fail f

def info (message : Text) : m Unit := log ⟨.info, message⟩

/-- Fails if the path is taken, unless that does not matter. -/
def ensureFree (path : Text) (overwrite : Bool) : m Unit := do
  if !overwrite then
    if ← isPresent path then fail (.fileExists path)

/-- The directory that a path leads into. -/
def directoryOf (path : Text) : Text :=
  match Path.parent? path with
  | some (c :: t) => c :: t
  | _ => ['.']

/-- Writes a file, with the directories that lead to it. -/
def write (path text : Text) (executable overwrite : Bool) : m Unit := do
  makeDirectories (directoryOf path)
  place path text executable overwrite

end Host
end ShellCompletion

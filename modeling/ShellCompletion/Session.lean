import ShellCompletion.FileTree
import ShellCompletion.Host

/-! Runs of commands on a file tree. What a run did before it failed stays done. Whether the output takes a text that
    is printed is for the tree to say; of a text that is refused nothing counts as printed. -/

namespace ShellCompletion

/-- A run that is over: the tree it left, what it logged and printed, and its result. -/
structure Done (α : Type) where
  tree : FileTree
  events : List Event := []
  output : Text := []
  result : Except Failure α

/-- A run on a file tree. -/
def Session (α : Type) : Type := FileTree → Done α

namespace Session

def ofResult {α : Type} (result : Except Failure α) : Session α := fun t => { tree := t, result }

def andThen {α β : Type} (x : Session α) (f : α → Session β) : Session β := fun t =>
  let first := x t
  match first.result with
  | .error e => { first with result := .error e }
  | .ok a =>
    let second := f a first.tree
    { second with events := first.events ++ second.events, output := first.output ++ second.output }

instance : Monad Session where
  pure a := ofResult (.ok a)
  bind := andThen

instance : Host Session where
  fail f := ofResult (.error f)
  log e := fun t => { tree := t, events := [e], result := .ok () }
  print text := fun t =>
    if t.takesOutput then { tree := t.printed, output := text, result := .ok () }
    else { tree := t.printed, result := .error .io }
  read path := fun t => { tree := t, result := .ok (t.read path) }
  isPresent path := fun t => { tree := t, result := .ok (t.isPresent path) }
  makeDirectories path := fun t =>
    let (tree, result) := t.makeDirectories path
    { tree, result }
  place path text executable overwrite := fun t =>
    match t.place path ⟨some text, File.modeFor executable⟩ overwrite with
    | .ok tree => { tree, result := .ok () }
    | .error f => { tree := t, result := .error f }

end Session
end ShellCompletion

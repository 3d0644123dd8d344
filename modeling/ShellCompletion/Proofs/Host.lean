import ShellCompletion.Host

/-! Runs in two worlds. What is run acts on its world through the operations only, so that a relation between runs in
    two worlds holds between the runs of a program if every operation keeps it. -/

namespace ShellCompletion.Host

/-- A relation between runs in two worlds that all operations keep which only look. -/
structure Relation (m n : Type → Type) [Host m] [Host n] where
  Related {α : Type} : m α → n α → Prop
  pure {α : Type} (a : α) : Related (pure a) (pure a)
  bind {α β : Type} {x : m α} {y : n α} {k : α → m β} {k' : α → n β} :
    Related x y → (∀ a, Related (k a) (k' a)) → Related (x >>= k) (y >>= k')
  fail {α : Type} (f : Failure) : Related (Host.fail f : m α) (Host.fail f)
  log (event : Event) : Related (Host.log event) (Host.log event)
  read (path : Text) : Related (Host.read path) (Host.read path)
  isPresent (path : Text) : Related (Host.isPresent path) (Host.isPresent path)

/-- A relation that is kept by writing too, either with or without replacing what is there. -/
structure WritingRelation (m n : Type → Type) [Host m] [Host n] (overwrite : Bool) extends Relation m n where
  makeDirectories (path : Text) : Related (Host.makeDirectories path) (Host.makeDirectories path)
  place (path text : Text) (executable : Bool) :
    Related (Host.place path text executable overwrite) (Host.place path text executable overwrite)

/-- A relation that is kept by printing as well, and so by every operation. -/
structure FullRelation (m n : Type → Type) [Host m] [Host n] (overwrite : Bool) extends
    WritingRelation m n overwrite where
  print (text : Text) : Related (Host.print text) (Host.print text)

variable {m n : Type → Type} [Host m] [Host n]

namespace Relation

variable (R : Relation m n)

theorem forM {α : Type} {f : α → m Unit} {g : α → n Unit} (h : ∀ a, R.Related (f a) (g a)) (l : List α) :
    R.Related (l.forM f) (l.forM g) := by
  induction l with
  | nil => exact R.pure ()
  | cons a l ih => exact R.bind (h a) fun _ => ih

theorem ofLogged {α : Type} (x : Logged α) : R.Related (Host.ofLogged x) (Host.ofLogged x) := by
  refine R.bind (R.forM R.log x.events) fun _ => ?_
  cases x.result with
  | error f => exact R.fail f
  | ok a => exact R.pure a

theorem ensureFree (path : Text) (overwrite : Bool) :
    R.Related (Host.ensureFree path overwrite) (Host.ensureFree path overwrite) := by
  unfold Host.ensureFree
  cases overwrite with
  | true => exact R.pure ()
  | false =>
    refine R.bind (R.isPresent path) fun present => ?_
    cases present with
    | true => exact R.fail _
    | false => exact R.pure ()

end Relation

theorem WritingRelation.write {overwrite : Bool} (R : WritingRelation m n overwrite) (path text : Text)
    (executable : Bool) :
    R.Related (Host.write path text executable overwrite) (Host.write path text executable overwrite) :=
  R.bind (R.makeDirectories _) fun _ => R.place path text executable

end ShellCompletion.Host

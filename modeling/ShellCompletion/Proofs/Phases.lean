import ShellCompletion.Proofs.Host
import ShellCompletion.Tool.Basic

/-! The phases of a request, in any world. Where a script is written, everything is prepared, then the launcher is
    written, then the script. -/

namespace ShellCompletion.Tool

variable {m n : Type → Type} [Host m] [Host n]

namespace Generate

/-! ### Phases -/

/-- What a request comes to before anything is written. -/
structure Plan where
  /-- The name of the root command. -/
  name : Text
  script : Text
  target : Option Text

/-- Fails if a file that is to be written is there already, unless that does not matter. -/
def ensureFree (g : Generate) (p : Plan) : m Unit := do
  if let some path := p.target then Host.ensureFree path g.force
  if g.launcher then Host.ensureFree (launcherPath p.target p.name) g.force

/-- Everything up to the first file that is written. -/
def prepare (g : Generate) : m Plan := do
  Host.info ("Generating completion script from: ".toList ++ g.model)
  let model ← g.readModel
  let script ← Host.ofLogged (Script.generate (g.registered model.name) model banner)
  let target ← Host.ofLogged (Logged.lift (g.target model.name))
  g.ensureFree ⟨model.name, script, target⟩
  return ⟨model.name, script, target⟩

/-- Writes the launcher, if there is to be one. -/
def writeLauncher (g : Generate) (p : Plan) : m Unit :=
  if g.launcher then g.create (launcherPath p.target p.name) (launcherText p.name) true else pure ()

/-- Writes or prints the script. -/
def deliver (g : Generate) (p : Plan) : m Unit :=
  match p.target with
  | some path => g.create path p.script false
  | none => Host.print p.script

theorem run_eq [LawfulMonad m] (g : Generate) : (g.run : m Unit) = (do
    let p ← g.prepare
    g.writeLauncher p
    g.deliver p) := by
  simp only [run, prepare, bind_assoc]
  refine bind_congr fun _ => bind_congr fun model => bind_congr fun script => bind_congr fun target => ?_
  cases target <;> cases hlauncher : g.launcher <;> simp [ensureFree, writeLauncher, deliver, hlauncher]

/-! ### One request in two worlds -/

section
variable (g : Generate) (R : Host.Relation m n)

theorem readModel_related : R.Related g.readModel g.readModel := by
  refine R.bind (R.read g.model) fun contents => ?_
  cases contents with
  | error fault => exact R.fail _
  | ok text =>
    refine R.bind (R.ofLogged _) fun model => ?_
    cases g.name with
    | none => exact R.pure model
    | some name => exact R.bind (R.log _) fun _ => R.pure _

theorem ensureFree_related (p : Plan) : R.Related (g.ensureFree p) (g.ensureFree p) := by
  have launcher : R.Related (if g.launcher then Host.ensureFree (launcherPath p.target p.name) g.force else pure ())
      (if g.launcher then Host.ensureFree (launcherPath p.target p.name) g.force else pure ()) := by
    split
    · exact R.ensureFree _ _
    · exact R.pure ()
  obtain ⟨name, script, target⟩ := p
  cases target with
  | none => exact launcher
  | some path => exact R.bind (R.ensureFree path _) fun _ => launcher

theorem prepare_related : R.Related g.prepare g.prepare :=
  R.bind (R.log _) fun _ => R.bind (readModel_related g R) fun _ => R.bind (R.ofLogged _) fun _ =>
    R.bind (R.ofLogged _) fun _ => R.bind (ensureFree_related g R _) fun _ => R.pure _

end

section
variable (g : Generate) (R : Host.WritingRelation m n g.force)

theorem create_related (path text : Text) (executable : Bool) :
    R.Related (g.create path text executable) (g.create path text executable) :=
  R.bind (R.write path text executable) fun _ => R.log _

theorem writeLauncher_related (p : Plan) : R.Related (g.writeLauncher p) (g.writeLauncher p) := by
  unfold writeLauncher
  split
  · exact create_related g R _ _ true
  · exact R.pure ()

end

section
variable (g : Generate) (R : Host.FullRelation m n g.force)

theorem deliver_related (p : Plan) : R.Related (g.deliver p) (g.deliver p) := by
  unfold deliver
  split
  · exact create_related g R.toWritingRelation _ p.script false
  · exact R.print p.script

theorem run_related [LawfulMonad m] [LawfulMonad n] : R.Related g.run g.run := by
  rw [run_eq, run_eq]
  exact R.bind (prepare_related g R.toRelation) fun p =>
    R.bind (writeLauncher_related g R.toWritingRelation p) fun _ => deliver_related g R p

end

end Generate

theorem Init.run_related (i : Init) (R : Host.FullRelation m n i.force) : R.Related i.run i.run :=
  R.bind (R.log _) fun _ => R.bind (R.ofLogged _) fun _ => R.bind (R.ensureFree i.path i.force) fun _ =>
    R.bind (R.write i.path _ false) fun _ => R.bind (R.log _) fun _ => R.print _

theorem printCompletion_related {overwrite : Bool} (R : Host.FullRelation m n overwrite) (shell : Text) :
    R.Related (printCompletion shell) (printCompletion shell) := by
  unfold printCompletion
  split
  · exact R.bind (R.ofLogged _) fun script => R.print script
  · exact R.pure ()

/-- May the request replace files? -/
def Request.force : Request → Bool
  | .generate request => request.force
  | .init request => request.force
  | .completion _ => false

/-- The runs of one request are related. -/
theorem Request.run_related [LawfulMonad m] [LawfulMonad n] (r : Request) (R : Host.FullRelation m n r.force) :
    R.Related r.run r.run := by
  cases r with
  | generate g => exact g.run_related R
  | init i => exact i.run_related R
  | completion shell => exact printCompletion_related R shell

end ShellCompletion.Tool

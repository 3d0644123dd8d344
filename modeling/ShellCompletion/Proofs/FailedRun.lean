import ShellCompletion.Proofs.Outcome
import ShellCompletion.Proofs.Phases
import ShellCompletion.Proofs.Session

/-! What is left of a run that fails. Everything that can go wrong is looked at before the first file is written, except
    for the writing itself: where the script cannot be written or printed, a launcher that was written before it
    remains. -/

namespace ShellCompletion.Tool.Generate

open Session

variable {g : Generate} {t u : FileTree} {e : Failure} {path text : Text} {executable : Bool}

theorem looks_prepare (g : Generate) : (g.prepare : Session Plan).Looks := prepare_related g looking

/-- A request is prepared for the path that its name asks for. -/
theorem target_of_prepare {p : Plan} (h : Ends g.prepare t (.ok p) u) : g.target p.name = .ok p.target := by
  obtain ⟨_, -, ⟨⟩⟩ | ⟨_, _, -, h⟩ := ends_bind.mp h
  obtain ⟨_, -, ⟨⟩⟩ | ⟨model, _, -, h⟩ := ends_bind.mp h
  obtain ⟨_, -, ⟨⟩⟩ | ⟨script, _, -, h⟩ := ends_bind.mp h
  obtain ⟨_, -, ⟨⟩⟩ | ⟨target, _, htarget, h⟩ := ends_bind.mp h
  obtain ⟨_, -, ⟨⟩⟩ | ⟨_, _, -, h⟩ := ends_bind.mp h
  cases (ends_pure.mp h).1
  exact (ends_ofLogged.mp htarget).1.symm

/-- A single dash asks for no file. -/
theorem target_eq_none {name : Text} {target : Option Text} (h : g.target name = .ok target)
    (hscript : g.script = some ['-']) : target = none := by
  simp only [Generate.target, hscript] at h
  split at h
  · obtain ⟨_, -, h⟩ := bind_eq_ok.mp h
    exact (Except.ok.inj h).symm
  · exact (Except.ok.inj h).symm

theorem ends_create {result : Except Failure Unit} :
    Ends (g.create path text executable) t result u ↔
      Ends (Host.write path text executable g.force) t result u := by
  refine ends_bind.trans ⟨?_, fun h => ?_⟩
  · rintro (⟨e, h, rfl⟩ | ⟨_, _, h, rfl, rfl⟩)
    · exact h
    · exact h
  · cases result with
    | error e => exact Or.inl ⟨e, h, rfl⟩
    | ok _ => exact Or.inr ⟨(), u, h, rfl, rfl⟩

/-- The launcher of a command. -/
def launcherFile (name : Text) : File := ⟨some (launcherText name), File.executableMode⟩

theorem withFile_files {v : FileTree} {l : Location} {f : File} (h : v.files = t.files) :
    (v.withFile l f).files = (t.withFile l f).files := by
  rw [FileTree.withFile, h]
  rfl

theorem ends_writeLauncher_error {p : Plan} (h : Ends (g.writeLauncher p) t (.error e) u) : u.files = t.files := by
  unfold writeLauncher at h
  split at h
  · exact (ends_write_error (ends_create.mp h)).1
  · cases (ends_pure.mp h).1

/-- Where the launcher is when it is written, and what there was before. -/
structure LauncherAt (g : Generate) (p : Plan) (t : FileTree) (l : Location) : Prop where
  asked : g.launcher = true
  free : g.force = false → t.file? l = none
  placed : ∃ v : FileTree, v.files = t.files ∧
    v.place (launcherPath p.target p.name) (launcherFile p.name) g.force = .ok (v.withFile l (launcherFile p.name))

theorem ends_writeLauncher_ok {p : Plan} (h : Ends (g.writeLauncher p) t (.ok ()) u) :
    u.files = t.files ∨ ∃ l, LauncherAt g p t l ∧ u.files = (t.withFile l (launcherFile p.name)).files := by
  unfold writeLauncher at h
  split at h
  · next asked =>
    obtain ⟨v, hv, hplaced⟩ := ends_write_ok (ends_create.mp h)
    obtain ⟨l, -, -, free, rfl⟩ := FileTree.place_eq_ok hplaced
    refine Or.inr ⟨_, ⟨asked, fun unforced => ?_, v, hv, hplaced⟩, withFile_files hv⟩
    rw [FileTree.file?, ← hv]
    exact free unforced
  · exact Or.inl (congrArg _ (ends_pure.mp h).2)

/-- Why a script is not delivered: the output refuses it, its file cannot be written, or something is in the way that
    may not be replaced. -/
inductive Undelivered (g : Generate) (p : Plan) (t : FileTree) : Failure → Prop where
  | unprinted : p.target = none → t.takesOutput = false → Undelivered g p t .io
  | unwritten (path : Text) : p.target = some path → Undelivered g p t .io
  | taken (path : Text) : p.target = some path → g.force = false → Undelivered g p t (.fileExists path)

theorem Undelivered.of_takesOutput {p : Plan} (h : Undelivered g p u e) (same : u.takesOutput = t.takesOutput) :
    Undelivered g p t e := by
  cases h with
  | unprinted htarget refused => exact .unprinted htarget (same ▸ refused)
  | unwritten path htarget => exact .unwritten path htarget
  | taken path htarget unforced => exact .taken path htarget unforced

theorem ends_deliver_error {p : Plan} (h : Ends (g.deliver p) t (.error e) u) :
    u.files = t.files ∧ Undelivered g p t e := by
  unfold deliver at h
  split at h
  · next path htarget =>
    obtain ⟨hfiles, rfl | ⟨unforced, rfl⟩⟩ := ends_write_error (ends_create.mp h)
    · exact ⟨hfiles, .unwritten path htarget⟩
    · exact ⟨hfiles, .taken path htarget unforced⟩
  · next htarget =>
    obtain ⟨refused, rfl, rfl⟩ := ends_print_error.mp h
    exact ⟨rfl, .unprinted htarget refused⟩

theorem printsNothing_writeLauncher (g : Generate) (p : Plan) : (g.writeLauncher p : Session Unit).PrintsNothing :=
  writeLauncher_related g (silent g.force) p

theorem ends_run_error (h : Ends g.run t (.error e) u) :
    u.files = t.files ∨ ∃ p l, Ends g.prepare t (.ok p) t ∧ LauncherAt g p t l ∧
      u.files = (t.withFile l (launcherFile p.name)).files ∧ g.target p.name = .ok p.target ∧ Undelivered g p t e := by
  rw [run_eq] at h
  -- preparing only looks, so that nothing has changed yet when the launcher is written
  obtain ⟨_, hprepared, -⟩ | ⟨p, v, hprepared, hwritten⟩ := ends_bind.mp h
  · exact Or.inl (congrArg _ ((looks_prepare g).tree_eq hprepared))
  obtain rfl := (looks_prepare g).tree_eq hprepared
  obtain ⟨_, hlauncher, -⟩ | ⟨_, w, hlauncher, hdelivered⟩ := ends_bind.mp hwritten
  · exact Or.inl (ends_writeLauncher_error hlauncher)
  obtain ⟨hfiles, undelivered⟩ := ends_deliver_error hdelivered
  have same := (printsNothing_writeLauncher g p).takesOutput_eq hlauncher
  obtain hw | ⟨l, hl, hw⟩ := ends_writeLauncher_ok hlauncher
  · exact Or.inl (hfiles.trans hw)
  · exact Or.inr ⟨p, l, hprepared, hl, hfiles.trans hw, target_of_prepare hprepared,
      undelivered.of_takesOutput same⟩

/-- A run that fails leaves the files as they were. The one exception is a launcher that was written before the script
    could not be delivered: then everything had been prepared, the launcher is in its place, and nothing else has
    changed. -/
theorem failed_run_keeps_files_or_leaves_launcher (g : Generate) (t : FileTree) (e : Failure)
    (failed : ((g.run : Session Unit) t).result = .error e) :
    ((g.run : Session Unit) t).tree.files = t.files ∨
      ∃ p l, Ends g.prepare t (.ok p) t ∧ LauncherAt g p t l ∧
        ((g.run : Session Unit) t).tree.files = (t.withFile l (launcherFile p.name)).files ∧
        g.target p.name = .ok p.target ∧ Undelivered g p t e :=
  ends_run_error ⟨failed, rfl⟩

/-- A model file by itself. -/
def modelOnly : FileTree where
  files := [(["demo.yaml".toList], ⟨some "name: demo\n".toList, 0o600⟩)]

/-- A request for a script and a launcher in one place. -/
def colliding : Generate where
  model := "demo.yaml".toList
  script := some "demo".toList
  launcher := true

/-- The launcher is the file that the script is then refused for, although nothing was there before. -/
theorem failed_run_leaves_launcher :
    ((colliding.run : Session Unit) modelOnly).result = .error (.fileExists "demo".toList) ∧
      modelOnly.file? ["demo".toList] = none ∧
      ((colliding.run : Session Unit) modelOnly).tree.file? ["demo".toList] = some (launcherFile "demo".toList) := by
  decide +kernel

/-- A request for a launcher, and for a script that is printed. -/
def printing : Generate where
  model := "demo.yaml".toList
  script := some ['-']
  launcher := true

/-- The same file, and an output that refuses what is printed next. -/
def outputRefused : FileTree := { modelOnly with outputs := [false] }

/-- The launcher is left behind both by a script that cannot be written and by one that cannot be printed. -/
theorem undelivered_scripts_leave_launcher :
    (((colliding.run : Session Unit) modelOnly).result = .error (.fileExists "demo".toList) ∧
      ∃ p l, LauncherAt colliding p modelOnly l ∧ p.target = some "demo".toList ∧
        ((colliding.run : Session Unit) modelOnly).tree.files = (modelOnly.withFile l (launcherFile p.name)).files) ∧
    ((printing.run : Session Unit) outputRefused).result = .error .io ∧
      ∃ p l, LauncherAt printing p outputRefused l ∧ p.target = none ∧
        ((printing.run : Session Unit) outputRefused).tree.files =
          (outputRefused.withFile l (launcherFile p.name)).files := by
  have refused : ((colliding.run : Session Unit) modelOnly).result = .error (.fileExists "demo".toList) := by
    decide +kernel
  have unprinted : ((printing.run : Session Unit) outputRefused).result = .error .io := by decide +kernel
  refine ⟨⟨refused, ?_⟩, unprinted, ?_⟩
  case refine_1 =>
    have changed : ((colliding.run : Session Unit) modelOnly).tree.files ≠ modelOnly.files := by decide +kernel
    obtain same | ⟨p, l, -, hl, hfiles, -, undelivered⟩ := failed_run_keeps_files_or_leaves_launcher _ _ _ refused
    · exact absurd same changed
    · cases undelivered with
      | taken _ htarget _ => exact ⟨p, l, hl, htarget, hfiles⟩
  case refine_2 =>
    have changed : ((printing.run : Session Unit) outputRefused).tree.files ≠ outputRefused.files := by decide +kernel
    obtain same | ⟨p, l, -, hl, hfiles, hasked, -⟩ := failed_run_keeps_files_or_leaves_launcher _ _ _ unprinted
    · exact absurd same changed
    · exact ⟨p, l, hl, target_eq_none hasked rfl, hfiles⟩

end ShellCompletion.Tool.Generate

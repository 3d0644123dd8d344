import ShellCompletion.Proofs.FailedRun
import ShellCompletion.Proofs.Locations

/-! What a run that succeeds leaves. The files are those from before with the outputs laid over them, the launcher
    first and then the script; so each output is where its path leads afterwards, except for a launcher whose place is
    that of the script. -/

namespace ShellCompletion.Tool.Generate

open FileTree Session

variable {g : Generate} {t u v : FileTree} {l : Location} {p : Plan} {path text : Text} {f : File}

/-! ### Preparing -/

/-- What a request is prepared for: the model of its file has a script under the name that it is to have, and the name
    can be used for the files that are named by it. -/
structure Prepared (g : Generate) (t : FileTree) (p : Plan) : Prop where
  compiled : ∃ text model, t.read g.model = .ok text ∧
    (Command.ofValidText (Format.ofPath g.model) g.mode text).result = .ok model ∧
    p.name = g.name.getD model.name ∧
    (Script.generate (g.registered p.name) { model with name := p.name } banner).result = .ok p.script
  target : g.target p.name = .ok p.target

theorem ends_readModel {model : Command} (h : Ends g.readModel t (.ok model) u) :
    u = t ∧ ∃ text model₀, t.read g.model = .ok text ∧
      (Command.ofValidText (Format.ofPath g.model) g.mode text).result = .ok model₀ ∧
      model = { model₀ with name := g.name.getD model₀.name } := by
  obtain ⟨_, -, ⟨⟩⟩ | ⟨contents, _, ⟨hread, rfl⟩, hread'⟩ := ends_bind.mp h
  obtain rfl : t.read g.model = contents := Except.ok.inj hread
  cases hcontents : t.read g.model with
  | error fault =>
    simp only [hcontents] at hread'
    cases hread'.1
  | ok text =>
    simp only [hcontents] at hread'
    obtain ⟨_, -, ⟨⟩⟩ | ⟨model₀, _, hmodel, hnamed⟩ := ends_bind.mp hread'
    obtain ⟨hvalid, rfl⟩ := ends_ofLogged.mp hmodel
    cases hname : g.name with
    | none =>
      simp only [hname] at hnamed
      obtain ⟨⟨⟩, rfl⟩ := ends_pure.mp hnamed
      exact ⟨rfl, text, model, rfl, hvalid.symm, by cases model; rfl⟩
    | some name =>
      simp only [hname] at hnamed
      obtain ⟨_, -, ⟨⟩⟩ | ⟨_, _, ⟨-, rfl⟩, hrenamed⟩ := ends_bind.mp hnamed
      obtain ⟨⟨⟩, rfl⟩ := ends_pure.mp hrenamed
      exact ⟨rfl, text, model₀, rfl, hvalid.symm, rfl⟩

theorem prepared_of_ends (h : Ends g.prepare t (.ok p) u) : g.Prepared t p := by
  have target := target_of_prepare h
  obtain ⟨_, -, ⟨⟩⟩ | ⟨_, _, ⟨-, rfl⟩, h⟩ := ends_bind.mp h
  obtain ⟨_, -, ⟨⟩⟩ | ⟨model, _, hmodel, h⟩ := ends_bind.mp h
  obtain ⟨rfl, text, model₀, hread, hvalid, rfl⟩ := ends_readModel hmodel
  obtain ⟨_, -, ⟨⟩⟩ | ⟨script, _, hscript, h⟩ := ends_bind.mp h
  obtain ⟨_, -, ⟨⟩⟩ | ⟨_, _, -, h⟩ := ends_bind.mp h
  obtain ⟨_, -, ⟨⟩⟩ | ⟨_, _, -, h⟩ := ends_bind.mp h
  obtain ⟨⟨⟩, -⟩ := ends_pure.mp h
  exact ⟨⟨text, model₀, hread, hvalid, rfl, (ends_ofLogged.mp hscript).1.symm⟩, target⟩

theorem Prepared.isFileName (h : g.Prepared t p) (asked : g.launcher = true) : isFileName p.name = true := by
  have htarget := h.target
  simp only [Generate.target, asked, Bool.or_true, if_true] at htarget
  obtain ⟨_, hcheck, -⟩ := bind_eq_ok.mp htarget
  unfold checkFileName at hcheck
  split at hcheck
  · assumption
  · cases hcheck

theorem isFileName_iff {name : Text} :
    isFileName name = true ↔ name ≠ [] ∧ name ≠ ['.'] ∧ name ≠ ['.', '.'] ∧ '/' ∉ name ∧ '\\' ∉ name := by
  simp [isFileName, and_assoc, not_or, forall_and, imp_not_comm]

/-! ### Writing -/

/-- The file of a script. Unlike a launcher it is not to be executed. -/
def scriptFile (p : Plan) : File := ⟨some p.script, File.ordinaryMode⟩

/-- A file has been written to the end of a path. The tree had grown to `w` before, where the path leads to the
    directory `l`. -/
structure Written (t u : FileTree) (path : Text) (f : File) (w : FileTree) (l : Location) : Prop where
  grown : t.Extends w
  files : w.files = t.files
  lands : w.Lands path l
  eq : u = w.withFile (l ++ [(targetOf path).name]) f

theorem written_of_ends {executable overwrite : Bool}
    (h : Ends (Host.write path text executable overwrite) t (.ok ()) u) :
    ∃ w l, Written t u path ⟨some text, File.modeFor executable⟩ w l := by
  obtain ⟨e, -, ⟨⟩⟩ | ⟨_, w, hmade, hplaced⟩ := ends_bind.mp h
  obtain ⟨l, lands, -, rfl⟩ := lands_of_place (ends_place_ok.mp hplaced)
  refine ⟨w, l, ?_, files_of_ends_makeDirectories hmade, lands, rfl⟩
  obtain ⟨-, rfl⟩ := hmade
  exact extends_makeDirectories t _

namespace Written
variable {w : FileTree} (h : Written t u path f w l)
include h

theorem grows : t.Extends u := by
  rw [h.eq]
  exact h.grown.trans (extends_withFile h.lands.notDirectory)

theorem locate : u.locate path = .ok (l ++ [(targetOf path).name]) := by
  rw [h.eq]
  exact h.lands.locate f

theorem file? (l' : Location) : u.file? l' = if l' = l ++ [(targetOf path).name] then some f else t.file? l' := by
  rw [h.eq, file?_withFile, FileTree.file?, h.files, FileTree.file?]

theorem found : ∃ l, u.locate path = .ok l ∧ u.file? l = some f := ⟨_, h.locate, by rw [h.file?, if_pos rfl]⟩

/-- Nothing changes but what the path leads to. -/
theorem locate_of_ne {l' : Location} (hl' : u.file? l' ≠ t.file? l') : u.locate path = .ok l' := by
  rw [h.file?] at hl'
  split at hl'
  · next heq => rw [h.locate, heq]
  · exact absurd rfl hl'

theorem fileName? : Path.fileName? path = some (targetOf path).name :=
  Path.fileName?_of_segments (segments_eq_of_closed h.lands.closed) h.lands.idle h.lands.upward

end Written

theorem written_launcher (h : Ends (g.writeLauncher p) t (.ok ()) u) :
    (g.launcher = false ∧ u = t) ∨
      g.launcher = true ∧ ∃ w l, Written t u (launcherPath p.target p.name) (launcherFile p.name) w l := by
  unfold writeLauncher at h
  split at h
  · next asked => exact Or.inr ⟨asked, written_of_ends (ends_create.mp h)⟩
  · next notAsked => exact Or.inl ⟨by simpa using notAsked, (ends_pure.mp h).2⟩

theorem written_script (h : Ends (g.deliver p) t (.ok ()) u) :
    (p.target = none ∧ u = t.printed) ∨ ∃ path, p.target = some path ∧ ∃ w l, Written t u path (scriptFile p) w l := by
  unfold deliver at h
  split at h
  · next path htarget => exact Or.inr ⟨path, htarget, written_of_ends (ends_create.mp h)⟩
  · next htarget => exact Or.inl ⟨htarget, (ends_print_ok.mp h).2⟩

/-- The launcher is beside the script, so that they are in one place if the script has the name of the command. -/
theorem place_of_launcher {w w' : FileTree} {l' : Location} {f' : File} (hname : isFileName p.name = true)
    (launcher : Written t v (launcherPath (some path) p.name) f w l) (script : Written v u path f' w' l') :
    l ++ [(targetOf (launcherPath (some path) p.name)).name] = l' ++ [p.name] := by
  obtain ⟨hne, -, -, hslash, -⟩ := isFileName_iff.mp hname
  have hsegments := segments_eq_of_closed script.lands.closed
  obtain ⟨directory, hparent, -⟩ := Path.exists_parent_append hsegments script.lands.idle hslash hne
  have hpath : launcherPath (some path) p.name = Path.append directory p.name := by
    rw [launcherPath, Option.bind_some, hparent]
  rw [hpath] at launcher ⊢
  have grown : w.Extends w' := (launcher.eq ▸ extends_withFile launcher.lands.notDirectory).trans script.grown
  obtain ⟨rfl, hlast⟩ := script.lands.beside hparent hslash hne launcher.lands grown
  rw [hlast]

/-! ### Outputs -/

/-- What a run leaves that was prepared with a plan, besides the files from before. -/
structure Leaves (g : Generate) (p : Plan) (t u : FileTree) : Prop where
  script : ∀ path, p.target = some path → ∃ l, u.locate path = .ok l ∧ u.file? l = some (scriptFile p)
  launcher : g.launcher = true → p.target.bind Path.fileName? ≠ some p.name →
    ∃ l, u.locate (launcherPath p.target p.name) = .ok l ∧ u.file? l = some (launcherFile p.name)
  /-- A script with the name of the command is what its launcher was replaced by. -/
  replaced : g.launcher = true → ∀ path, p.target = some path → Path.fileName? path = some p.name →
    u.locate (launcherPath p.target p.name) = u.locate path
  others : ∀ l, u.file? l ≠ t.file? l → (∃ path, p.target = some path ∧ u.locate path = .ok l) ∨
    g.launcher = true ∧ u.locate (launcherPath p.target p.name) = .ok l

theorem leaves_nothing (notAsked : g.launcher = false) (htarget : p.target = none) : g.Leaves p t t.printed where
  script _ hpath := nomatch htarget.symm.trans hpath
  launcher asked := nomatch notAsked.symm.trans asked
  replaced asked := nomatch notAsked.symm.trans asked
  others _ hl' := absurd rfl hl'

theorem leaves_launcher (asked : g.launcher = true) (htarget : p.target = none) {w : FileTree}
    (h : Written t u (launcherPath p.target p.name) (launcherFile p.name) w l) : g.Leaves p t u.printed where
  script _ hpath := nomatch htarget.symm.trans hpath
  launcher _ _ := ⟨_, (extends_printed u).locate h.locate, by rw [file?_printed, h.file?, if_pos rfl]⟩
  replaced _ _ hpath := nomatch htarget.symm.trans hpath
  others _ hl' := Or.inr ⟨asked, (extends_printed u).locate (h.locate_of_ne hl')⟩

theorem leaves_script (notAsked : g.launcher = false) (htarget : p.target = some path) {w : FileTree}
    (h : Written t u path (scriptFile p) w l) : g.Leaves p t u where
  script _ hpath := Option.some.inj (htarget.symm.trans hpath) ▸ h.found
  launcher asked := nomatch notAsked.symm.trans asked
  replaced asked := nomatch notAsked.symm.trans asked
  others _ hl' := Or.inl ⟨path, htarget, h.locate_of_ne hl'⟩

/-- The script is written last, and so over a launcher in its place. -/
theorem leaves_both (asked : g.launcher = true) (hname : isFileName p.name = true) (htarget : p.target = some path)
    {w w' : FileTree} {l' : Location} (launcher : Written t v (launcherPath p.target p.name) (launcherFile p.name) w l)
    (script : Written v u path (scriptFile p) w' l') : g.Leaves p t u := by
  rw [htarget] at launcher
  have place := place_of_launcher hname launcher script
  have hlocate : u.locate (launcherPath p.target p.name) = .ok (l' ++ [p.name]) := by
    rw [htarget, script.grows.locate launcher.locate, place]
  constructor
  case script =>
    rintro _ hpath
    exact Option.some.inj (htarget.symm.trans hpath) ▸ script.found
  case launcher =>
    intro _ hne
    rw [htarget, Option.bind_some, script.fileName?] at hne
    have apart : l' ++ [p.name] ≠ l' ++ [(targetOf path).name] := fun h =>
      hne (congrArg some (List.singleton_inj.mp (List.append_cancel_left h)).symm)
    exact ⟨_, hlocate, by rw [script.file?, if_neg apart, launcher.file?, if_pos place.symm]⟩
  case replaced =>
    intro _ _ hpath hlast
    obtain rfl := Option.some.inj (htarget.symm.trans hpath)
    rw [script.fileName?] at hlast
    rw [hlocate, script.locate, Option.some.inj hlast]
  case others =>
    intro l'' hl''
    by_cases hv : v.file? l'' = t.file? l''
    · exact Or.inl ⟨path, htarget, script.locate_of_ne (hv ▸ hl'')⟩
    · exact Or.inr ⟨asked, htarget ▸ script.grows.locate (launcher.locate_of_ne hv)⟩

theorem ends_run_ok (h : Ends g.run t (.ok ()) u) : ∃ p, g.Prepared t p ∧ g.Leaves p t u := by
  rw [run_eq] at h
  obtain ⟨_, -, ⟨⟩⟩ | ⟨p, _, hprepared, hwritten⟩ := ends_bind.mp h
  obtain rfl := (looks_prepare g).tree_eq hprepared
  have prepared := prepared_of_ends hprepared
  refine ⟨p, prepared, ?_⟩
  obtain ⟨_, -, ⟨⟩⟩ | ⟨_, v, hlauncher, hdelivered⟩ := ends_bind.mp hwritten
  obtain ⟨notAsked, rfl⟩ | ⟨asked, w, l, launcher⟩ := written_launcher hlauncher <;>
    obtain ⟨htarget, rfl⟩ | ⟨path, htarget, w', l', script⟩ := written_script hdelivered
  · exact leaves_nothing notAsked htarget
  · exact leaves_script notAsked htarget script
  · exact leaves_launcher asked htarget launcher
  · exact leaves_both asked (prepared.isFileName asked) htarget launcher script

/-- A run that succeeds was prepared, and leaves its script and its launcher where their paths lead, and all other files
    as they were. Only a launcher is not there at the end whose place is the script's, which is written after it. -/
theorem successful_run_leaves_outputs (g : Generate) (t : FileTree)
    (succeeded : ((g.run : Session Unit) t).result = .ok ()) :
    ∃ p, g.Prepared t p ∧ g.Leaves p t ((g.run : Session Unit) t).tree :=
  ends_run_ok ⟨succeeded, rfl⟩

/-- A request for a script and a launcher side by side, where nothing else is. -/
def sideBySide : Generate where
  model := "demo.yaml".toList
  script := some "./bin//demo.bash".toList
  launcher := true

theorem sideBySide_leaves_outputs : ((sideBySide.run : Session Unit) modelOnly).result = .ok () ∧
    ∃ p, sideBySide.Prepared modelOnly p ∧ sideBySide.Leaves p modelOnly ((sideBySide.run : Session Unit) modelOnly).tree := by
  have succeeded : ((sideBySide.run : Session Unit) modelOnly).result = .ok () := by decide +kernel
  exact ⟨succeeded, successful_run_leaves_outputs _ _ succeeded⟩

def overlapping : Generate where
  model := "demo.yaml".toList
  script := some "demo".toList
  launcher := true
  force := true

/-- The run succeeds, but the launcher is gone when it is over: the script has taken its place, with its own mode. -/
theorem successful_run_replaces_launcher :
    ((overlapping.run : Session Unit) modelOnly).result = .ok () ∧
      launcherPath overlapping.script "demo".toList = "demo".toList ∧
      (((overlapping.run : Session Unit) modelOnly).tree.file? ["demo".toList]).map (·.mode) = some File.ordinaryMode ∧
      ((overlapping.run : Session Unit) modelOnly).tree.file? ["demo".toList] ≠ some (launcherFile "demo".toList) := by
  decide +kernel

end ShellCompletion.Tool.Generate

import ShellCompletion.Proofs.FileTree
import ShellCompletion.Proofs.Host
import ShellCompletion.Session

/-! How runs on a file tree end. A run that only looks leaves the tree as it found it, so that a failure before the
    first thing is written changes nothing; and writing one file changes that file or none. -/

namespace ShellCompletion.Session

variable {α β : Type} {x : Session α} {k : α → Session β} {t u : FileTree} {e : Failure}

/-! ### Laws -/

theorem bind_pure_eq (x : Session α) : x >>= pure = x := by
  funext t
  show andThen x (fun a => ofResult (.ok a)) t = x t
  unfold andThen
  cases h : x t with
  | mk tree events output result => cases result <;> simp [ofResult]

theorem pure_bind_eq (a : α) (k : α → Session β) : (pure a : Session α) >>= k = k a := by
  funext t
  show andThen (ofResult (.ok a)) k t = k a t
  simp [andThen, ofResult]

theorem bind_assoc_eq {γ : Type} (x : Session α) (k : α → Session β) (k' : β → Session γ) :
    x >>= k >>= k' = x >>= fun a => k a >>= k' := by
  funext t
  show andThen (andThen x k) k' t = andThen x (fun a => andThen (k a) k') t
  unfold andThen
  cases hx : x t with
  | mk tree events output result =>
    cases result with
    | error e => rfl
    | ok a =>
      cases hk : k a tree with
      | mk tree' events' output' result' => cases result' <;> simp [hk]

instance : LawfulMonad Session := LawfulMonad.mk' Session bind_pure_eq pure_bind_eq bind_assoc_eq

/-! ### Ends -/

/-- A run from one tree ends with a result and leaves another tree. -/
def Ends (x : Session α) (t : FileTree) (result : Except Failure α) (u : FileTree) : Prop :=
  (x t).result = result ∧ (x t).tree = u

theorem ends_self (x : Session α) (t : FileTree) : Ends x t (x t).result (x t).tree := ⟨rfl, rfl⟩

/-- What follows a success starts from the tree that it left. -/
theorem Ends.bind_iff {a : α} {v : FileTree} {result : Except Failure β} (hx : Ends x t (.ok a) v) :
    Ends (x >>= k) t result u ↔ Ends (k a) v result u := by
  obtain ⟨hresult, rfl⟩ := hx
  show (andThen x k t).result = _ ∧ (andThen x k t).tree = _ ↔ _
  simp only [andThen, hresult]
  rfl

/-- Nothing follows a failure. -/
theorem Ends.bind_error_iff {v : FileTree} {result : Except Failure β} (hx : Ends x t (.error e) v) :
    Ends (x >>= k) t result u ↔ result = .error e ∧ u = v := by
  obtain ⟨hresult, rfl⟩ := hx
  show (andThen x k t).result = _ ∧ (andThen x k t).tree = _ ↔ _
  simp only [andThen, hresult, eq_comm]

theorem ends_bind {result : Except Failure β} :
    Ends (x >>= k) t result u ↔
      (∃ e, Ends x t (.error e) u ∧ result = .error e) ∨ ∃ a v, Ends x t (.ok a) v ∧ Ends (k a) v result u := by
  constructor
  · intro h
    have hx := ends_self x t
    cases hresult : (x t).result with
    | error e =>
      rw [hresult] at hx
      obtain ⟨hend, rfl⟩ := hx.bind_error_iff.mp h
      exact Or.inl ⟨e, hx, hend⟩
    | ok a =>
      rw [hresult] at hx
      exact Or.inr ⟨a, _, hx, hx.bind_iff.mp h⟩
  · rintro (⟨e, hx, rfl⟩ | ⟨a, v, hx, hk⟩)
    · exact hx.bind_error_iff.mpr ⟨rfl, rfl⟩
    · exact hx.bind_iff.mpr hk

theorem ends_pure {a : α} {result : Except Failure α} : Ends (pure a) t result u ↔ result = .ok a ∧ u = t :=
  and_congr eq_comm eq_comm

/-- What holds between the trees before and after two runs holds between those before and after both in a row. -/
theorem rel_tree_bind {r : FileTree → FileTree → Prop} (trans : ∀ {t u v}, r t u → r u v → r t v)
    (hx : ∀ t, r t (x t).tree) (hk : ∀ a t, r t (k a t).tree) (t : FileTree) : r t ((x >>= k) t).tree := by
  have first := hx t
  obtain ⟨e, hend, -⟩ | ⟨a, v, hend, hend'⟩ := ends_bind.mp (ends_self (x >>= k) t)
  · rwa [hend.2] at first
  · rw [hend.2] at first
    have second := hk a v
    rw [hend'.2] at second
    exact trans first second

/-! ### Runs that only look -/

/-- A run that leaves every tree as it is. -/
def Looks (x : Session α) : Prop := ∀ t, (x t).tree = t

theorem Looks.tree_eq (hx : x.Looks) {result : Except Failure α} (h : Ends x t result u) : u = t :=
  h.2.symm.trans (hx t)

theorem Looks.bind (hx : x.Looks) (hk : ∀ a, (k a).Looks) : (x >>= k).Looks :=
  rel_tree_bind (r := fun t u => u = t) (fun h h' => h'.trans h) hx hk

/-- Looking is kept by every operation that only looks. -/
def looking : Host.Relation Session Session where
  Related x _ := x.Looks
  pure _ _ := rfl
  bind hx hk := hx.bind hk
  fail _ _ := rfl
  log _ _ := rfl
  read _ _ := rfl
  isPresent _ _ := rfl

/-! ### Logged computations -/

theorem ends_forM_log (events : List Event) : Ends (events.forM Host.log : Session Unit) t (.ok ()) t := by
  induction events with
  | nil => exact ⟨rfl, rfl⟩
  | cons event events ih => exact (Ends.bind_iff (x := Host.log event) ⟨rfl, rfl⟩).mpr ih

/-- Logged computations have their result in every tree. -/
theorem ends_ofLogged {y : Logged α} {result : Except Failure α} :
    Ends (Host.ofLogged y) t result u ↔ result = y.result ∧ u = t := by
  refine (ends_forM_log y.events).bind_iff.trans ?_
  cases y.result <;> exact and_congr eq_comm eq_comm

/-! ### Printing -/

section
variable {text : Text}

theorem print_tree (text : Text) (t : FileTree) : ((Host.print text : Session Unit) t).tree = t.printed := by
  simp only [Host.print]
  split <;> rfl

theorem ends_print_ok : Ends (Host.print text) t (.ok ()) u ↔ t.takesOutput = true ∧ u = t.printed := by
  simp only [Ends, Host.print]
  cases t.takesOutput <;> simp [eq_comm]

theorem ends_print_error :
    Ends (Host.print text) t (.error e) u ↔ t.takesOutput = false ∧ e = .io ∧ u = t.printed := by
  simp only [Ends, Host.print]
  cases t.takesOutput <;> simp [eq_comm]

end

/-! ### Writing -/

section
variable {path text : Text} {executable overwrite : Bool}

theorem files_of_ends_makeDirectories {result : Except Failure Unit} (h : Ends (Host.makeDirectories path) t result u) :
    u.files = t.files := by
  obtain ⟨-, rfl⟩ := h
  exact FileTree.makeDirectories_files

theorem io_of_ends_makeDirectories (h : Ends (Host.makeDirectories path) t (.error e) u) : e = .io :=
  FileTree.makeDirectories_error h.1

theorem ends_place_ok :
    Ends (Host.place path text executable overwrite) t (.ok ()) u ↔
      t.place path ⟨some text, File.modeFor executable⟩ overwrite = .ok u := by
  simp only [Ends, Host.place]
  cases t.place path ⟨some text, File.modeFor executable⟩ overwrite <;> simp

theorem ends_place_error :
    Ends (Host.place path text executable overwrite) t (.error e) u ↔
      t.place path ⟨some text, File.modeFor executable⟩ overwrite = .error e ∧ u = t := by
  simp only [Ends, Host.place]
  cases t.place path ⟨some text, File.modeFor executable⟩ overwrite <;> simp [eq_comm]

/-- A file that is written is placed in a tree with the same files. -/
theorem ends_write_ok (h : Ends (Host.write path text executable overwrite) t (.ok ()) u) :
    ∃ v : FileTree, v.files = t.files ∧ v.place path ⟨some text, File.modeFor executable⟩ overwrite = .ok u := by
  obtain ⟨e, -, ⟨⟩⟩ | ⟨_, v, hmade, hplaced⟩ := ends_bind.mp h
  exact ⟨v, files_of_ends_makeDirectories hmade, ends_place_ok.mp hplaced⟩

/-- A file that cannot be written leaves all files as they are. -/
theorem ends_write_error (h : Ends (Host.write path text executable overwrite) t (.error e) u) :
    u.files = t.files ∧ (e = .io ∨ overwrite = false ∧ e = .fileExists path) := by
  obtain ⟨e', hmade, ⟨⟩⟩ | ⟨_, v, hmade, hplaced⟩ := ends_bind.mp h
  · exact ⟨files_of_ends_makeDirectories hmade, Or.inl (io_of_ends_makeDirectories hmade)⟩
  · obtain ⟨hplaced, rfl⟩ := ends_place_error.mp hplaced
    exact ⟨files_of_ends_makeDirectories hmade, FileTree.place_eq_error hplaced⟩

end

/-! ### Runs that print nothing -/

/-- A run that leaves the whole output to what comes after it. -/
def PrintsNothing (x : Session α) : Prop := ∀ t, (x t).tree.outputs = t.outputs

theorem PrintsNothing.takesOutput_eq (hx : x.PrintsNothing) {result : Except Failure α} (h : Ends x t result u) :
    u.takesOutput = t.takesOutput := by
  rw [FileTree.takesOutput, ← h.2, hx, FileTree.takesOutput]

theorem PrintsNothing.bind (hx : x.PrintsNothing) (hk : ∀ a, (k a).PrintsNothing) : (x >>= k).PrintsNothing :=
  rel_tree_bind (r := fun t u => u.outputs = t.outputs) (fun h h' => h'.trans h) hx hk

theorem printsNothing_place (path text : Text) (executable overwrite : Bool) :
    (Host.place path text executable overwrite : Session Unit).PrintsNothing := fun t => by
  simp only [Host.place]
  split
  · next hplaced => exact FileTree.place_outputs hplaced
  · rfl

/-- Printing nothing is kept by every operation but printing. -/
def silent (overwrite : Bool) : Host.WritingRelation Session Session overwrite where
  Related x _ := x.PrintsNothing
  pure _ _ := rfl
  bind hx hk := hx.bind hk
  fail _ _ := rfl
  log _ _ := rfl
  read _ _ := rfl
  isPresent _ _ := rfl
  makeDirectories _ _ := FileTree.makeDirectories_outputs
  place path text executable := printsNothing_place path text executable overwrite

end ShellCompletion.Session

import ShellCompletion.Proofs.Defects

/-! Defects among warnings. A run that both warns and fails comes across its findings in one order; it has warned of
    all that comes before the first defect, and of nothing that comes after it. -/

namespace ShellCompletion

/-- Something that a run comes across: it fails for a defect and only warns of anything else. -/
inductive Finding where
  | defect (f : Failure)
  | warning (message : Text)
deriving DecidableEq, Repr

namespace Finding

/-- The failure of a defect. -/
def defect? : Finding → Option Failure
  | defect f => some f
  | warning _ => none

/-- The message of a warning. -/
def warning? : Finding → Option Text
  | defect _ => none
  | warning message => some message

/-- The events of a run that warns of these things. -/
def warned (messages : List Text) : List Event := messages.map fun message => ⟨.warning, message⟩

/-- What becomes of a run that comes across these findings. -/
def heed : List Finding → Logged Unit
  | [] => pure ()
  | defect f :: _ => Logged.fail f
  | warning message :: fs => do
    Logged.warn message
    heed fs

variable {fs : List Finding} {ds : List Failure} {ws : List Text} {f : Failure}

theorem inOrder_heed : InOrder heed where
  nil := rfl
  append fs gs := by
    induction fs with
    | nil => exact (pure_bind _ _).symm
    | cons x fs ih =>
      cases x with
      | defect f => rfl
      | warning message => rw [List.cons_append, heed, heed, ih, bind_assoc]

theorem heed_defects (ds : List Failure) : heed (ds.map defect) = Logged.lift (report ds) := by
  cases ds <;> rfl

theorem heed_warnings (ws : List Text) : heed (ws.map warning) = ws.forM Logged.warn := by
  induction ws with
  | nil => rfl
  | cons message ws ih =>
    rw [List.map_cons, heed, ih]
    rfl

/-- The result of a run depends on the defects alone. -/
theorem result_heed (fs : List Finding) : (heed fs).result = report (fs.filterMap defect?) := by
  induction fs with
  | nil => rfl
  | cons x fs ih =>
    cases x with
    | defect f => rfl
    | warning message =>
      rw [heed, Logged.result_bind, ih]
      rfl

theorem heed_eq_ok (ws : List Text) : heed (ws.map warning) = ⟨warned ws, .ok ()⟩ := by
  induction ws with
  | nil => rfl
  | cons message ws ih =>
    rw [List.map_cons, heed, ih]
    rfl

theorem heed_eq_error (ws : List Text) (f : Failure) (rest : List Finding) :
    heed (ws.map warning ++ defect f :: rest) = ⟨warned ws, .error f⟩ := by
  rw [inOrder_heed.append, heed_eq_ok]
  simp [Logged.bind_eq, Logged.andThen, heed, Logged.fail, Logged.lift]

theorem filterMap_defect_map (ds : List Failure) : (ds.map defect).filterMap defect? = ds := by
  rw [List.filterMap_map]
  exact List.filterMap_some

theorem filterMap_defect_warnings (ws : List Text) : (ws.map warning).filterMap defect? = [] := by
  rw [List.filterMap_eq_nil_iff]
  exact List.forall_mem_map.mpr fun _ _ => rfl

theorem filterMap_warning_map (ws : List Text) : (ws.map warning).filterMap warning? = ws := by
  rw [List.filterMap_map]
  exact List.filterMap_some

theorem filterMap_warning_defects (ds : List Failure) : (ds.map defect).filterMap warning? = [] := by
  rw [List.filterMap_eq_nil_iff]
  exact List.forall_mem_map.mpr fun _ _ => rfl

/-- Without a warning nothing is logged. -/
theorem events_heed_eq_nil (h : fs.filterMap warning? = []) : (heed fs).events = [] := by
  induction fs with
  | nil => rfl
  | cons x fs ih =>
    cases x with
    | defect f => rfl
    | warning message => cases h

/-- Without a defect there are only warnings. -/
theorem eq_map_warning (h : fs.filterMap defect? = []) : fs = (fs.filterMap warning?).map warning := by
  induction fs with
  | nil => rfl
  | cons x fs ih =>
    cases x with
    | defect f => cases h
    | warning message => exact congrArg (warning message :: ·) (ih h)

/-- Only warnings come before the first defect. -/
theorem exists_split (h : (fs.filterMap defect?).head? = some f) :
    ∃ (ws : List Text) (rest : List Finding), fs = ws.map warning ++ defect f :: rest := by
  induction fs with
  | nil => cases h
  | cons x fs ih =>
    cases x with
    | defect g =>
      obtain rfl : g = f := Option.some.inj h
      exact ⟨[], fs, rfl⟩
    | warning message =>
      obtain ⟨ws, rest, rfl⟩ := ih h
      exact ⟨message :: ws, rest, rfl⟩

end Finding
end ShellCompletion

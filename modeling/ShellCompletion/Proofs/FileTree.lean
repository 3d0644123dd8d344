import ShellCompletion.FileTree

/-! What writing does to a tree. Making directories adds directories and nothing else. Placing a file changes nothing
    else, and where no file may be replaced there was none in its place. -/

namespace ShellCompletion.FileTree

variable {t u : FileTree} {l l' : Location} {f : File} {path : Text} {overwrite : Bool} {e : Failure}

/-! ### Files -/

theorem lookup_filter_ne {files : List (Location × File)} (h : l' ≠ l) :
    (files.filter (·.1 != l)).lookup l' = files.lookup l' := by
  induction files with
  | nil => rfl
  | cons entry files ih =>
    obtain ⟨place, file⟩ := entry
    by_cases hplace : place = l
    · rw [List.filter_cons_of_neg (by simp [hplace]), ih, List.lookup_cons, hplace, beq_eq_false_iff_ne.mpr h]
    · rw [List.filter_cons_of_pos (by simp [hplace]), List.lookup_cons, List.lookup_cons, ih]

theorem file?_withFile : (t.withFile l f).file? l' = if l' = l then some f else t.file? l' := by
  unfold file? withFile
  rw [List.lookup_cons]
  by_cases h : l' = l
  · simp [h]
  · rw [beq_eq_false_iff_ne.mpr h, if_neg h]
    exact lookup_filter_ne h

theorem file?_printed : t.printed.file? l = t.file? l := rfl

/-- Every file of the first tree is in the second as it was. -/
def Keeps (t u : FileTree) : Prop := ∀ l f, t.file? l = some f → u.file? l = some f

theorem Keeps.refl (t : FileTree) : Keeps t t := fun _ _ h => h

theorem Keeps.trans {v : FileTree} (h : Keeps t u) (h' : Keeps u v) : Keeps t v := fun l f hf => h' l f (h l f hf)

theorem Keeps.of_files (h : u.files = t.files) : Keeps t u := fun l f hf => by
  rw [file?, h]
  exact hf

theorem Keeps.withFile (free : t.file? l = none) : Keeps t (t.withFile l f) := fun l' g hg => by
  rw [file?_withFile, if_neg, hg]
  rintro rfl
  rw [free] at hg
  cases hg

/-! ### Directories -/

theorem makeFrom_eq (t : FileTree) (l : Location) (segments : List Text) :
    ∃ directories, (t.makeFrom l segments).1 = { t with directories } := by
  fun_induction makeFrom t l segments with
  | case1 t | case5 t | case6 t => exact ⟨t.directories, rfl⟩
  | case2 _ _ _ _ _ ih | case3 _ _ _ _ _ _ ih | case4 _ _ _ _ _ _ _ ih => exact ih
  | case7 _ _ _ _ _ _ _ _ ih => exact ih

theorem makeDirectories_eq (t : FileTree) (path : Text) :
    ∃ directories, (t.makeDirectories path).1 = { t with directories } := by
  unfold makeDirectories
  split
  · exact ⟨t.directories, rfl⟩
  · exact makeFrom_eq _ _ _

theorem makeDirectories_files : (t.makeDirectories path).1.files = t.files := by
  obtain ⟨_, h⟩ := makeDirectories_eq t path
  rw [h]

theorem makeDirectories_outputs : (t.makeDirectories path).1.outputs = t.outputs := by
  obtain ⟨_, h⟩ := makeDirectories_eq t path
  rw [h]

theorem makeFrom_error (segments : List Text) (h : (t.makeFrom l segments).2 = .error e) : e = .io := by
  fun_induction makeFrom t l segments with
  | case1 => cases h
  | case2 _ _ _ _ _ ih | case3 _ _ _ _ _ _ ih | case4 _ _ _ _ _ _ _ ih => exact ih h
  | case5 | case6 => exact (Except.error.inj h).symm
  | case7 _ _ _ _ _ _ _ _ ih => exact ih h

theorem makeDirectories_error (h : (t.makeDirectories path).2 = .error e) : e = .io := by
  unfold makeDirectories at h
  split at h
  · exact (Except.error.inj h).symm
  · exact makeFrom_error _ h

/-! ### Placing -/

theorem file?_eq_none (h : t.entry? l = none) : t.file? l = none := by
  unfold entry? at h
  split at h
  · cases h
  · assumption

/-- A file can be placed at the end of a path: the path leads there, its last name stands for itself, and no directory
    is in the way. -/
structure Lands (t : FileTree) (path : Text) (l : Location) : Prop where
  leading : t.walk (t.start path) ((targetOf path).leading ++ [[]]) = .ok l
  usable : isUnusable path = false
  idle : Path.isIdle (targetOf path).name = false
  upward : Path.isUpward (targetOf path).name = false
  short : isTooLong (targetOf path).name = false
  closed : (targetOf path).isOpen = false
  notDirectory : t.entry? (l ++ [(targetOf path).name]) ≠ some .directory

theorem lands_of_place (h : t.place path f overwrite = .ok u) :
    ∃ l, t.Lands path l ∧ (overwrite = false → t.file? (l ++ [(targetOf path).name]) = none) ∧
      u = t.withFile (l ++ [(targetOf path).name]) f := by
  simp only [place] at h
  split at h
  · cases h
  · next l hwalk =>
    refine ⟨l, ?_⟩
    split at h
    · cases h
    next husable =>
    split at h
    · cases h
    next hname =>
    split at h
    · cases h
    next hshort =>
    obtain ⟨hidle, hupward⟩ := Bool.or_eq_false_iff.mp (Bool.eq_false_iff.mpr hname)
    have lands : (targetOf path).isOpen = false → t.entry? (l ++ [(targetOf path).name]) ≠ some .directory →
        t.Lands path l := fun closed notDirectory =>
      ⟨hwalk, by simpa using husable, hidle, hupward, by simpa using hshort, closed, notDirectory⟩
    split at h
    · cases h
    · next hentry =>
      split at h
      · cases h
      · next hoverwrite =>
        split at h
        · cases h
        · next hclosed =>
          refine ⟨lands (by simpa using hclosed) (by simp [hentry]), fun hno => ?_, (Except.ok.inj h).symm⟩
          simp [hno] at hoverwrite
    · next hentry =>
      split at h
      · cases h
      · next hclosed =>
        exact ⟨lands (by simpa using hclosed) (by simp [hentry]), fun _ => file?_eq_none hentry, (Except.ok.inj h).symm⟩

/-- A file is placed at the end of its path, which leads there already, and not over a directory; where nothing may be
    replaced the place was free. -/
theorem place_eq_ok (h : t.place path f overwrite = .ok u) :
    ∃ l, t.walk (t.start path) ((targetOf path).leading ++ [[]]) = .ok l ∧
      t.entry? (l ++ [(targetOf path).name]) ≠ some .directory ∧
      (overwrite = false → t.file? (l ++ [(targetOf path).name]) = none) ∧
      u = t.withFile (l ++ [(targetOf path).name]) f := by
  obtain ⟨l, lands, free, rfl⟩ := lands_of_place h
  exact ⟨l, lands.leading, lands.notDirectory, free, rfl⟩

theorem place_eq_error (h : t.place path f overwrite = .error e) :
    e = .io ∨ overwrite = false ∧ e = .fileExists path := by
  have either : ∀ {e}, Except.error (α := FileTree) (if overwrite then Failure.io else .fileExists path) = .error e →
      e = .io ∨ overwrite = false ∧ e = .fileExists path := by
    rintro e ⟨⟩
    cases overwrite <;> simp
  have io : ∀ {e}, Except.error (α := FileTree) Failure.io = .error e →
      e = .io ∨ overwrite = false ∧ e = .fileExists path := by
    rintro e ⟨⟩
    exact Or.inl rfl
  simp only [place] at h
  split at h
  · exact io h
  · split at h
    · exact io h
    · split at h
      · exact either h
      · split at h
        · exact io h
        · split at h
          · exact either h
          · split at h
            · next hoverwrite => exact Or.inr ⟨by simpa using hoverwrite, (Except.error.inj h).symm⟩
            · split at h
              · exact io h
              · cases h
          · split at h
            · exact io h
            · cases h

theorem place_outputs (h : t.place path f overwrite = .ok u) : u.outputs = t.outputs := by
  obtain ⟨_, -, -, -, rfl⟩ := place_eq_ok h
  rfl

theorem Keeps.place (h : t.place path f false = .ok u) : Keeps t u := by
  obtain ⟨l, -, -, free, rfl⟩ := place_eq_ok h
  exact Keeps.withFile (free rfl)

end ShellCompletion.FileTree

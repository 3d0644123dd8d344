import ShellCompletion.Proofs.FileTree
import ShellCompletion.Proofs.Outcome
import ShellCompletion.Proofs.Path

/-! Where paths lead while a tree grows. Directories are added and never removed, so that a path leads where it led
    before; and a file that was placed at the end of a path is found there. -/

namespace ShellCompletion.FileTree

variable {t u v : FileTree} {l l' : Location} {path : Text} {f : File} {ss : List Text}

/-! ### Growing trees -/

/-- Every directory of the first tree is one of the second. -/
structure Extends (t u : FileTree) : Prop where
  workingDirectory : u.workingDirectory = t.workingDirectory
  directory : ∀ l, t.entry? l = some .directory → u.entry? l = some .directory

theorem Extends.refl (t : FileTree) : Extends t t := ⟨rfl, fun _ h => h⟩

theorem Extends.trans (h : Extends t u) (h' : Extends u v) : Extends t v where
  workingDirectory := h'.workingDirectory.trans h.workingDirectory
  directory l hl := h'.directory l (h.directory l hl)

theorem entry?_eq_directory :
    t.entry? l = some .directory ↔ t.file? l = none ∧ (l.isEmpty || t.directories.contains l) = true := by
  unfold entry?
  cases t.file? l <;> simp [or_iff_not_imp_left]

theorem extends_withDirectory (t : FileTree) (l : Location) : Extends t (t.withDirectory l) where
  workingDirectory := rfl
  directory l' h := by
    obtain ⟨free, listed⟩ := entry?_eq_directory.mp h
    refine entry?_eq_directory.mpr ⟨free, ?_⟩
    rcases Bool.or_eq_true_iff.mp listed with root | listed
    · simp [root]
    · simp [withDirectory, List.contains_iff_mem.mp listed]

/-- A file in place of a directory is the only thing that would take one away. -/
theorem extends_withFile (h : t.entry? l ≠ some .directory) : Extends t (t.withFile l f) where
  workingDirectory := rfl
  directory l' hl' := by
    have hne : l' ≠ l := by
      rintro rfl
      exact h hl'
    obtain ⟨free, listed⟩ := entry?_eq_directory.mp hl'
    exact entry?_eq_directory.mpr ⟨by rw [file?_withFile, if_neg hne, free], listed⟩

theorem extends_printed (t : FileTree) : Extends t t.printed := ⟨rfl, fun _ h => h⟩

theorem extends_makeFrom (t : FileTree) (l : Location) (ss : List Text) : Extends t (t.makeFrom l ss).1 := by
  fun_induction makeFrom t l ss with
  | case1 | case5 | case6 => exact Extends.refl _
  | case2 _ _ _ _ _ ih | case3 _ _ _ _ _ _ ih | case4 _ _ _ _ _ _ _ ih => exact ih
  | case7 t l s _ _ _ _ _ ih => exact (extends_withDirectory t (l ++ [s])).trans ih

theorem extends_makeDirectories (t : FileTree) (path : Text) : Extends t (t.makeDirectories path).1 := by
  unfold makeDirectories
  split
  · exact Extends.refl t
  · exact extends_makeFrom _ _ _

/-! ### Walks -/

/-- A walk goes through directories only, and so the same way in a tree that has them all. -/
theorem Extends.walk (h : Extends t u) (hwalk : t.walk l ss = .ok l') : u.walk l ss = .ok l' := by
  fun_induction FileTree.walk t l ss with
  | case1 => exact hwalk
  | case2 | case3 | case6 => cases hwalk
  | case4 l s ss hentry hidle ih => simpa [FileTree.walk, h.directory l hentry, hidle] using ih hwalk
  | case5 l s ss hentry hidle hupward ih => simpa [FileTree.walk, h.directory l hentry, hidle, hupward] using ih hwalk
  | case7 l s ss hentry hidle hupward hshort ih =>
    simpa [FileTree.walk, h.directory l hentry, hidle, hupward, hshort] using ih hwalk

theorem walk_append (t : FileTree) (l : Location) (ss rs : List Text) :
    t.walk l (ss ++ rs) = t.walk l ss >>= (t.walk · rs) := by
  fun_induction FileTree.walk t l ss with
  | case1 => rfl
  | case2 l s ss h | case3 l s ss f h => simp [FileTree.walk, h]; rfl
  | case4 l s ss h hidle ih => simpa [FileTree.walk, h, hidle] using ih
  | case5 l s ss h hidle hupward ih => simpa [FileTree.walk, h, hidle, hupward] using ih
  | case6 l s ss h hidle hupward hlong => simp [FileTree.walk, h, hidle, hupward, hlong]; rfl
  | case7 l s ss h hidle hupward hshort ih => simpa [FileTree.walk, h, hidle, hupward, hshort] using ih

theorem walk_idle (hss : ∀ s ∈ ss, Path.isIdle s = true) (hwalk : t.walk l ss = .ok l') : l' = l := by
  induction ss with
  | nil => exact (Except.ok.inj hwalk).symm
  | cons s ss ih =>
    obtain ⟨hs, hss⟩ := List.forall_mem_cons.mp hss
    unfold FileTree.walk at hwalk
    split at hwalk
    · cases hwalk
    · cases hwalk
    · rw [if_pos hs] at hwalk
      exact ih hss hwalk

/-- What an empty segment follows has to be a directory. -/
theorem walk_open (h : t.walk l (ss ++ [[]]) = .ok l') : t.walk l ss = .ok l' ∧ t.entry? l' = some .directory := by
  rw [walk_append] at h
  obtain ⟨m, hm, h⟩ := bind_eq_ok.mp h
  unfold FileTree.walk at h
  split at h
  · cases h
  · cases h
  · next hentry =>
    obtain rfl : m = l' := Except.ok.inj h
    exact ⟨hm, hentry⟩

/-! ### Places -/

theorem Extends.locate (h : Extends t u) (hlocate : t.locate path = .ok l) : u.locate path = .ok l := by
  unfold FileTree.locate at hlocate ⊢
  split at hlocate
  · cases hlocate
  split at hlocate
  · cases hlocate
  next hempty husable =>
  have start : u.start path = t.start path := by rw [start, FileTree.start, h.workingDirectory]
  rw [if_neg hempty, if_neg husable, start]
  exact h.walk hlocate

theorem Lands.locate (lands : t.Lands path l) (f : File) :
    (t.withFile (l ++ [(targetOf path).name]) f).locate path = .ok (l ++ [(targetOf path).name]) := by
  have nonempty : path.isEmpty = false := by
    cases path with
    | nil => exact absurd lands.closed (by decide)
    | cons => rfl
  obtain ⟨hwalk, hentry⟩ := walk_open lands.leading
  have extended : Extends t (t.withFile (l ++ [(targetOf path).name]) f) := extends_withFile lands.notDirectory
  have start : (t.withFile (l ++ [(targetOf path).name]) f).start path = t.start path := rfl
  rw [FileTree.locate, nonempty, lands.usable, segments_eq_of_closed lands.closed, start, walk_append,
    extended.walk hwalk]
  show FileTree.walk _ l [_] = _
  simp [FileTree.walk, extended.directory l hentry, lands.idle, lands.upward, lands.short]

theorem start_eq_of_segments {path' r s : Text} {leading : List Text} (h : Path.segments path = ss ++ [s])
    (h' : Path.segments path' = leading ++ [r]) (hhead : ss.head? = leading.head?) : t.start path = t.start path' := by
  have absolute : Path.isAbsolute path = Path.isAbsolute path' := by
    rw [Bool.eq_iff_iff, Path.isAbsolute_iff_of_segments h, Path.isAbsolute_iff_of_segments h', hhead]
  rw [start, start, absolute]

/-- A name beside a path is in the same directory as what the path leads to, also in a tree that has grown since. -/
theorem Lands.beside {directory name : Text} (lands : u.Lands path l) (hparent : Path.parent? path = some directory)
    (hname : '/' ∉ name) (hne : name ≠ []) (beside : t.Lands (Path.append directory name) l') (h : Extends t u) :
    l' = l ∧ (targetOf (Path.append directory name)).name = name := by
  have hsegments := segments_eq_of_closed lands.closed
  obtain ⟨directory', hparent', happended⟩ := Path.exists_parent_append hsegments lands.idle hname hne
  obtain rfl : directory = directory' := Option.some.inj (hparent.symm.trans hparent')
  obtain ⟨hleading, hlast⟩ := List.append_inj' ((segments_eq_of_closed beside.closed).symm.trans happended) rfl
  refine ⟨?_, List.singleton_inj.mp hlast⟩
  -- the two paths differ, besides the name, in idle segments before it
  obtain ⟨idle, hidle, hdropped⟩ := Path.exists_append_dropIdle (targetOf path).leading.reverse
  have hsplit : (targetOf path).leading =
      (Path.dropIdle (targetOf path).leading.reverse).reverse ++ idle.reverse := by
    rw [← List.reverse_append, ← hdropped, List.reverse_reverse]
  have hhead : (Path.dropIdle (targetOf path).leading.reverse).reverse.head? = (targetOf path).leading.head? := by
    rw [List.head?_reverse, Path.getLast?_dropIdle, List.getLast?_reverse]
  obtain ⟨hwalk, -⟩ := walk_open lands.leading
  obtain ⟨hwalk', -⟩ := walk_open beside.leading
  rw [hsplit, walk_append] at hwalk
  obtain ⟨m, hm, hwalk⟩ := bind_eq_ok.mp hwalk
  obtain rfl : l = m := walk_idle (fun s hs => hidle s (List.mem_reverse.mp hs)) hwalk
  have start : u.start (Path.append directory name) = u.start path := start_eq_of_segments happended hsegments hhead
  have start' : t.start (Path.append directory name) = u.start (Path.append directory name) := by
    rw [FileTree.start, FileTree.start, h.workingDirectory]
  rw [hleading, start', start] at hwalk'
  exact Except.ok.inj ((h.walk hwalk').symm.trans hm)

end ShellCompletion.FileTree

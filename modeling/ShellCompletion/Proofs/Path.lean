import Mathlib.Data.List.Basic
import ShellCompletion.FileTree

/-! Paths taken apart and put together. The segments of a path are those that its text is joined from, and a path that
    continues the parent of another one leads through the same directories. -/

namespace ShellCompletion.Path

variable {path name s : Text} {ss : List Text}

/-! ### Segments -/

theorem segments_ne_nil (path : Text) : segments path ≠ [] := by
  induction path with
  | nil => exact List.cons_ne_nil _ _
  | cons c path ih =>
    unfold segments
    split
    · exact List.cons_ne_nil _ _
    · split <;> exact List.cons_ne_nil _ _

theorem segments_append_slash (hs : '/' ∉ s) : segments (s ++ '/' :: path) = s :: segments path := by
  induction s with
  | nil => simp [segments]
  | cons c s ih =>
    obtain ⟨hc, hs⟩ := List.ne_and_not_mem_of_not_mem_cons hs
    simp [segments, hc.symm, ih hs]

theorem segments_of_notMem (hs : '/' ∉ s) : segments s = [s] := by
  induction s with
  | nil => rfl
  | cons c s ih =>
    obtain ⟨hc, hs⟩ := List.ne_and_not_mem_of_not_mem_cons hs
    simp [segments, hc.symm, ih hs]

theorem slash_notMem_of_mem_segments (hs : s ∈ segments path) : '/' ∉ s := by
  induction path generalizing s with
  | nil =>
    rw [segments, List.mem_singleton] at hs
    simp [hs]
  | cons c path ih =>
    unfold segments at hs
    split at hs
    · rcases List.mem_cons.mp hs with rfl | hs
      · exact List.not_mem_nil
      · exact ih hs
    · next hc =>
      split at hs
      · next hnil => exact absurd hnil (segments_ne_nil path)
      · next first rest heq =>
        rcases List.mem_cons.mp hs with rfl | hs
        · have : '/' ∉ first := ih (heq ▸ List.mem_cons_self)
          simp [this, Ne.symm hc]
        · exact ih (heq ▸ List.mem_cons_of_mem _ hs)

/-- Segments that are joined and continued by one more are found again. -/
theorem segments_join_append (hss : ∀ s ∈ ss, '/' ∉ s) (hne : ss ≠ []) (hname : '/' ∉ name) :
    segments (Text.join ['/'] ss ++ '/' :: name) = ss ++ [name] := by
  induction ss with
  | nil => exact absurd rfl hne
  | cons s ss ih =>
    obtain ⟨hs, hss⟩ := List.forall_mem_cons.mp hss
    cases ss with
    | nil => simp [Text.join, segments_append_slash hs, segments_of_notMem hname]
    | cons r ss =>
      have rest := ih hss (List.cons_ne_nil r ss)
      simp only [Text.join, List.append_assoc, List.cons_append, List.nil_append] at rest ⊢
      rw [segments_append_slash hs, rest]

/-- A path is absolute if an empty segment comes before another one. -/
theorem isAbsolute_iff_of_segments (h : segments path = ss ++ [s]) : isAbsolute path = true ↔ ss.head? = some [] := by
  cases path with
  | nil =>
    cases ss with
    | nil => simp [isAbsolute]
    | cons r ss => simp [segments] at h
  | cons c path =>
    by_cases hc : c = '/'
    · obtain ⟨r, rs, hr⟩ := List.exists_cons_of_ne_nil (segments_ne_nil path)
      rw [segments, if_pos hc, hr] at h
      cases ss with
      | nil => simp at h
      | cons q ss =>
        obtain ⟨rfl, -⟩ := List.cons.inj h
        simp [isAbsolute, hc]
    · have first : ∃ d ds rest, segments (c :: path) = (d :: ds) :: rest := by
        rw [segments, if_neg hc]
        split <;> exact ⟨_, _, _, rfl⟩
      obtain ⟨d, ds, rest, hfirst⟩ := first
      rw [hfirst] at h
      cases ss with
      | nil => simp [isAbsolute, hc]
      | cons q ss =>
        obtain ⟨rfl, -⟩ := List.cons.inj h
        simp [isAbsolute, hc]

/-- The last segment is empty only behind a slash, or where there is nothing at all. -/
theorem getLast?_of_getLast?_segments (h : (segments path).getLast? = some []) (hne : path ≠ []) :
    path.getLast? = some '/' := by
  induction path with
  | nil => exact absurd rfl hne
  | cons c path ih =>
    cases path with
    | nil =>
      by_cases hc : c = '/'
      · rw [hc]
        rfl
      · simp [segments, hc] at h
    | cons d path =>
      rw [List.getLast?_cons_cons]
      refine ih ?_ (List.cons_ne_nil d path)
      obtain ⟨s, ss, hs⟩ := List.exists_cons_of_ne_nil (segments_ne_nil (d :: path))
      rw [segments, hs] at h
      rw [hs]
      split at h
      · rwa [List.getLast?_cons_cons] at h
      · cases ss with
        | nil => simp at h
        | cons r ss => rwa [List.getLast?_cons_cons] at h ⊢

/-! ### Idle segments -/

theorem dropIdle_ne_nil (hss : ss ≠ []) : dropIdle ss ≠ [] := by
  fun_induction dropIdle ss with
  | case1 s r ss hs ih => exact ih (List.cons_ne_nil _ _)
  | case2 | case3 => exact hss

theorem exists_append_dropIdle (ss : List Text) :
    ∃ idle, (∀ s ∈ idle, isIdle s = true) ∧ ss = idle ++ dropIdle ss := by
  fun_induction dropIdle ss with
  | case1 s r ss hs ih =>
    obtain ⟨idle, hidle, heq⟩ := ih
    exact ⟨s :: idle, List.forall_mem_cons.mpr ⟨hs, hidle⟩, congrArg (s :: ·) heq⟩
  | case2 s r ss hs => exact ⟨[], nofun, rfl⟩
  | case3 ss hss => exact ⟨[], nofun, rfl⟩

theorem getLast?_dropIdle (ss : List Text) : (dropIdle ss).getLast? = ss.getLast? := by
  fun_induction dropIdle ss with
  | case1 s r ss hs ih => rw [ih, List.getLast?_cons_cons]
  | case2 | case3 => rfl

theorem dropIdle_cons (hs : isIdle s = false) (ss : List Text) : dropIdle (s :: ss) = s :: ss := by
  cases ss with
  | nil => rfl
  | cons r ss => simp [dropIdle, hs]

/-- An empty segment is left only by itself. -/
theorem eq_nil_of_dropIdle_eq {rest : List Text} (h : dropIdle ss = [] :: rest) : rest = [] := by
  fun_induction dropIdle ss with
  | case1 s r ss hs ih => exact ih h
  | case2 s r ss hs =>
    obtain ⟨rfl, -⟩ := List.cons.inj h
    exact absurd rfl hs
  | case3 ss hss =>
    cases rest with
    | nil => rfl
    | cons r rest => exact absurd h (hss _ _ _)

theorem getLast?_join_concat (hs : s ≠ []) : (Text.join ['/'] (ss ++ [s])).getLast? = s.getLast? := by
  induction ss with
  | nil => rfl
  | cons r ss ih =>
    have hc := List.getLast?_eq_some_getLast hs
    rw [hc] at ih ⊢
    have joined : Text.join ['/'] (r :: ss ++ [s]) = r ++ ['/'] ++ Text.join ['/'] (ss ++ [s]) := by
      cases ss <;> rfl
    rw [joined, List.getLast?_append, ih]
    rfl

/-! ### Parents -/

section Parents
variable {leading : List Text}

theorem fileName?_of_segments (h : segments path = leading ++ [s]) (hidle : isIdle s = false)
    (hupward : isUpward s = false) : fileName? path = some s := by
  rw [fileName?, h, List.reverse_concat, dropIdle_cons hidle]
  simp [hidle, hupward]

/-- The path of a name beside another path has the segments that lead there, without idle ones at the end. -/
theorem exists_parent_append (h : segments path = leading ++ [s]) (hidle : isIdle s = false) (hname : '/' ∉ name)
    (hne : name ≠ []) : ∃ directory, parent? path = some directory ∧
      segments (append directory name) = (dropIdle leading.reverse).reverse ++ [name] := by
  have relative : isAbsolute name = false := by
    obtain ⟨c, name, rfl⟩ := List.exists_cons_of_ne_nil hne
    have := List.ne_of_not_mem_cons hname
    simpa [isAbsolute] using this.symm
  obtain ⟨c, s, rfl⟩ : ∃ c t, s = c :: t := List.exists_cons_of_ne_nil (by rintro rfl; cases hidle)
  unfold parent?
  rw [h, List.reverse_concat, dropIdle_cons hidle]
  by_cases hleading : leading = []
  · subst hleading
    refine ⟨[], ?_, ?_⟩
    · rfl
    · rw [append, relative]
      exact segments_of_notMem hname
  · obtain ⟨q, qs, hq⟩ := List.exists_cons_of_ne_nil (List.reverse_ne_nil_iff.mpr hleading)
    refine ⟨ofReversed (dropIdle leading.reverse), by rw [hq], ?_⟩
    have noSlash : ∀ r ∈ (dropIdle leading.reverse).reverse, '/' ∉ r := fun r hr => by
      obtain ⟨idle, -, heq⟩ := exists_append_dropIdle leading.reverse
      have hmem : r ∈ leading.reverse := by
        rw [heq]
        exact List.mem_append_right _ (List.mem_reverse.mp hr)
      exact slash_notMem_of_mem_segments (h ▸ List.mem_append_left _ (List.mem_reverse.mp hmem))
    by_cases hroot : dropIdle leading.reverse = [[]]
    · have root : ofReversed [[]] = ['/'] := rfl
      rw [hroot, root, append, relative]
      simp [segments, segments_of_notMem hname]
    · obtain ⟨r, rs, hr⟩ := List.exists_cons_of_ne_nil (dropIdle_ne_nil (List.reverse_ne_nil_iff.mpr hleading))
      have hrne : r ≠ [] := by
        rintro rfl
        exact hroot (by rw [hr, eq_nil_of_dropIdle_eq hr])
      have hlast : (Text.join ['/'] (rs.reverse ++ [r])).getLast? = r.getLast? := getLast?_join_concat hrne
      have hslash : r.getLast? ≠ some '/' := fun hr' =>
        noSlash r (by simp [hr]) (List.mem_of_getLast? hr')
      have hnonempty : Text.join ['/'] (rs.reverse ++ [r]) ≠ [] := by
        intro hnil
        rw [hnil, List.getLast?_nil, eq_comm, List.getLast?_eq_none_iff] at hlast
        exact hrne hlast
      rw [ofReversed, if_neg hroot, append, relative, hr, List.reverse_cons]
      rw [hr, List.reverse_cons] at noSlash
      simp only [Bool.false_or, List.isEmpty_iff, hnonempty, if_false, hlast, hslash, List.append_assoc,
        List.singleton_append]
      simpa using segments_join_append noSlash (by simp) hname

end Parents

end ShellCompletion.Path

namespace ShellCompletion.FileTree
open ShellCompletion.Path

variable {path name : Text}

/-! ### Targets -/

/-- A path without slashes at its end leads to its last segment. -/
theorem segments_eq_of_closed (closed : (targetOf path).isOpen = false) :
    segments path = (targetOf path).leading ++ [(targetOf path).name] := by
  unfold targetOf at closed ⊢
  obtain ⟨s, ss, hs⟩ := List.exists_cons_of_ne_nil (List.reverse_ne_nil_iff.mpr (segments_ne_nil path))
  have heq : segments path = ss.reverse ++ [s] := by rw [← List.reverse_reverse (segments path), hs, List.reverse_cons]
  rw [hs] at closed ⊢
  by_cases hempty : s = []
  · subst hempty
    have hne : path ≠ [] := by
      rintro rfl
      cases hs
      cases closed
    have hlast := getLast?_of_getLast?_segments (by rw [heq, List.getLast?_concat]) hne
    split at closed
    · cases closed
    · simp [hlast] at closed
  · have kept : (s :: ss).dropWhile (·.isEmpty) = s :: ss := List.dropWhile_cons_of_neg (by simpa using hempty)
    rw [kept]
    exact heq

end ShellCompletion.FileTree

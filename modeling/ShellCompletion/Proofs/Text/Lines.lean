import Mathlib.Data.List.Basic
import ShellCompletion.Text.Basic

/-! The lines of a text and their parts. Lines without line feeds of their own are read off the text that they make
    up; a part of a line, or of a list of lines, is found between fixed parts. -/

namespace ShellCompletion.Text

/-! ### Lines -/

section Lines
variable {t l : Text} {ls : List Text}

@[simp] theorem unlines_cons : unlines (l :: ls) = l ++ '\n' :: unlines ls := by
  simp [unlines]

theorem lines_cons {c : Char} (hc : c ≠ '\n') :
    lines (c :: t) = match lines t with
      | [] => [[c]]
      | l :: ls => (c :: l) :: ls := by
  rw [lines.eq_def]
  split
  · next h => cases h
  · next h => exact absurd (List.cons.inj h).1 hc
  · next h =>
    obtain ⟨rfl, rfl⟩ := List.cons.inj h
    rfl

/-- A line ends at the first line feed. -/
theorem lines_append (hl : '\n' ∉ l) : lines (l ++ '\n' :: t) = l :: lines t := by
  induction l with
  | nil => rfl
  | cons c l ih =>
    obtain ⟨hc, hl⟩ := List.ne_and_not_mem_of_not_mem_cons hl
    rw [List.cons_append, lines_cons hc.symm, ih hl]

theorem lines_unlines (hls : ∀ l ∈ ls, '\n' ∉ l) : lines (unlines ls) = ls := by
  induction ls with
  | nil => rfl
  | cons l ls ih =>
    obtain ⟨hl, hls⟩ := List.forall_mem_cons.mp hls
    rw [unlines_cons, lines_append hl, ih hls]

theorem join_cons (sep : Text) (hls : ls ≠ []) : join sep (l :: ls) = l ++ (sep ++ join sep ls) := by
  obtain ⟨l', ls, rfl⟩ := List.exists_cons_of_ne_nil hls
  rw [join, List.append_assoc]

/-- Joining lines takes none but the separator's line feeds. -/
theorem newline_notMem_join {sep : Text} (hsep : '\n' ∉ sep) (hls : ∀ l ∈ ls, '\n' ∉ l) : '\n' ∉ join sep ls := by
  induction ls with
  | nil => exact List.not_mem_nil
  | cons l ls ih =>
    obtain ⟨hl, hls⟩ := List.forall_mem_cons.mp hls
    by_cases hnil : ls = []
    · subst hnil
      exact hl
    · simp [join_cons sep hnil, hl, hsep, ih hls]

end Lines

/-! ### Parts -/

section Parts
variable {α : Type} [BEq α] [LawfulBEq α]

/-- What stands between a fixed front and a fixed back. -/
def between (front back l : List α) : Option (List α) := (front.isPrefixOf? l).bind back.isSuffixOf?

theorem between_append (front l back : List α) : between front back (front ++ l ++ back) = some l := by
  have hfront : front.isPrefixOf? (front ++ l ++ back) = some (l ++ back) := by simp
  have hback : back.isSuffixOf? (l ++ back) = some l := by simp
  rw [between, hfront, Option.bind_some, hback]

/-- The groups of a list, each of them ended by `stop`; the first continues `group`. -/
def groupsFrom (stop : α) (group : List α) : List α → Option (List (List α))
  | [] => if group.isEmpty then some [] else none
  | a :: l => if a == stop then (groupsFrom stop [] l).map (group :: ·) else groupsFrom stop (group ++ [a]) l

theorem groupsFrom_append {stop : α} {g : List α} (hg : stop ∉ g) (group l : List α) :
    groupsFrom stop group (g ++ stop :: l) = (groupsFrom stop [] l).map ((group ++ g) :: ·) := by
  induction g generalizing group with
  | nil => simp [groupsFrom]
  | cons a g ih =>
    obtain ⟨ha, hg⟩ := List.ne_and_not_mem_of_not_mem_cons hg
    simp [groupsFrom, ha.symm, ih hg]

/-- What is written as groups that end at `stop`, and have none inside, is read back as these groups. -/
theorem groupsFrom_flatMap {β : Type} {stop : α} {write group : β → List α} {l : List β}
    (hwrite : ∀ b, write b = group b ++ [stop]) (hgroup : ∀ b ∈ l, stop ∉ group b) :
    groupsFrom stop [] (l.flatMap write) = some (l.map group) := by
  induction l with
  | nil => rfl
  | cons b l ih =>
    obtain ⟨hb, hl⟩ := List.forall_mem_cons.mp hgroup
    rw [List.flatMap_cons, hwrite, List.append_assoc, List.singleton_append, groupsFrom_append hb, ih hl,
      List.nil_append, Option.map_some, List.map_cons]

omit [BEq α] [LawfulBEq α] in
/-- What is written for each member of a list is read back. -/
theorem mapM_map_eq_some {β : Type} {write : α → β} {read : β → Option α} {l : List α}
    (h : ∀ a ∈ l, read (write a) = some a) : (l.map write).mapM read = some l := by
  induction l with
  | nil => rfl
  | cons a l ih =>
    obtain ⟨ha, hl⟩ := List.forall_mem_cons.mp h
    rw [List.map_cons, List.mapM_cons, ha, ih hl]
    rfl

end Parts

end ShellCompletion.Text

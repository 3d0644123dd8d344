import Mathlib.Data.List.Infix
import Mathlib.Data.Option.Basic
import ShellCompletion.Yaml.Scalar.Quoted
import ShellCompletion.Yaml.Scalar.Writing

/-! What becomes of a text in single quotes. Every apostrophe in it is doubled, and nothing else is escaped; so the
    breaks in it are folded, and a line that marks the start or the end of a document makes the scalar malformed. A text
    is read back as it is exactly if its breaks are kept: separators, and the line feeds behind them. -/

namespace ShellCompletion.Yaml

open Scalar (isGap)

/-! ### Gaps -/

/-- One of the two breaks that stay what they are. -/
def isSeparator (c : Char) : Bool := c = '\u2028' || c = '\u2029'

section Breaks
variable {c : Char}

theorem foldBreak_of_isSeparator (hc : isSeparator c = true) : foldBreak c = c :=
  if_pos (by simpa [isSeparator] using hc)

theorem foldBreak_of_not_isSeparator (hc : isSeparator c = false) : foldBreak c = '\n' :=
  if_neg (by simpa [isSeparator] using hc)

theorem isGap_of_isBlank (hc : isBlank c = true) : isGap c = true := Bool.or_eq_true_iff.mpr (.inl hc)

theorem isGap_of_isBreak (hc : isBreak c = true) : isGap c = true := Bool.or_eq_true_iff.mpr (.inr hc)

theorem isGap_foldBreak (hc : isBreak c = true) : isGap (foldBreak c) = true := by
  cases hs : isSeparator c with
  | true => rw [foldBreak_of_isSeparator hs, isGap_of_isBreak hc]
  | false => rw [foldBreak_of_not_isSeparator hs]; rfl

theorem not_isBlank_of_isBreak (hc : isBreak c = true) : ¬isBlank c = true := by
  intro hblank
  rcases Bool.or_eq_true_iff.mp hblank with h | h <;> rw [of_decide_eq_true h] at hc <;> cases hc

theorem not_isFeed_of_isBlank (hc : isBlank c = true) : ¬(decide (c = '\n') || isSeparator c) = true := by
  rcases Bool.or_eq_true_iff.mp hc with hc | hc <;> rw [of_decide_eq_true hc] <;> decide

end Breaks

namespace Gap

/-- Nothing but blanks and breaks is collected. -/
def Loose (gap : Gap) : Prop := ∀ d ∈ gap.blanks ++ gap.first.toList ++ gap.more, isGap d = true

variable {gap : Gap} {c : Char}

theorem length_text (opens : gap.opensLine = true) : gap.text.length ≤ 1 + gap.more.length := by
  rw [Gap.text, if_pos opens]
  split
  · exact Nat.le_add_left _ _
  · split
    · exact Nat.le_add_right _ _
    · exact Nat.le_add_left _ _
  · exact (Nat.add_comm _ _).le

theorem text_of_isSeparator {s : Char} (hs : isSeparator s = true) (more : Text) :
    ({ opensLine := true, first := some s, more } : Gap).text = s :: more := by
  rcases Bool.or_eq_true_iff.mp hs with hs | hs <;> rw [of_decide_eq_true hs] <;> rfl

theorem loose_nil : Loose {} := List.forall_mem_nil _

theorem Loose.addBlank (loose : gap.Loose) (hc : isBlank c = true) : (gap.addBlank c).Loose := by
  have blank := isGap_of_isBlank hc
  rw [Gap.addBlank]
  split
  · exact loose
  · intro d hd
    simp only [List.mem_append, List.mem_singleton] at hd
    rcases hd with ((hd | rfl) | hd) | hd
    · exact loose d (by simp [hd])
    · exact blank
    · exact loose d (by simp [hd])
    · exact loose d (by simp [hd])

theorem Loose.addBreak (loose : gap.Loose) (hc : isBreak c = true) : (gap.addBreak c).Loose := by
  have feed := isGap_foldBreak hc
  rw [Gap.addBreak]
  split
  · intro d hd
    rw [← List.append_assoc, List.mem_append, List.mem_singleton] at hd
    rcases hd with hd | rfl
    · exact loose d hd
    · exact feed
  · intro d hd
    rw [List.mem_singleton.mp hd]
    exact feed

theorem Loose.text (loose : gap.Loose) : ∀ d ∈ gap.text, isGap d = true := by
  have fromMore (d : Char) (hd : d ∈ gap.more) : isGap d = true := loose d (List.mem_append_right _ hd)
  rw [Gap.text]
  split
  · split
    · exact fromMore
    · split
      · intro d hd
        rw [List.mem_singleton.mp hd]
        rfl
      · exact fromMore
    · next first =>
      intro d hd
      rcases List.mem_cons.mp hd with rfl | hd
      · exact loose d (by simp [first])
      · exact fromMore d hd
  · exact fun d hd => loose d (by simp [hd])

end Gap

/-! ### Reading in quotes -/

namespace Scalar

/-- An apostrophe stands twice in single quotes. -/
def doubled (c : Char) : Text := if c = '\'' then ['\'', '\''] else [c]

/-- What a text in single quotes is read as, behind a gap; `atStart` tells whether it begins a line. -/
def folded (atStart : Bool) (gap : Gap) : Text → Option Text
  | [] => some gap.text
  | '\r' :: '\n' :: t => folded true (gap.addBreak '\n') t
  | c :: t =>
    if isBreak c then folded true (gap.addBreak c) t
    else if isBlank c then folded false (gap.addBlank c) t
    else if atStart && atDocumentMarker (c :: t ++ ['\'']) then none
    else (gap.text ++ [c] ++ ·) <$> folded false {} t

section Doubled
variable {c : Char} {t rest : Text}

theorem doubled_eq (hc : c ≠ '\'') : doubled c = [c] := if_neg hc

theorem all_flatMap_doubled {p : Char → Bool} (hp : p '\'' = true) (t : Text) :
    (t.flatMap doubled).all p = t.all p := by
  induction t with
  | nil => rfl
  | cons c t ih =>
    rw [List.flatMap_cons, List.all_append, List.all_cons, ih]
    by_cases hc : c = '\''
    · subst hc
      simp [doubled, hp]
    · simp [doubled_eq hc]

theorem head?_doubled (t rest : Text) : (t.flatMap doubled ++ '\'' :: rest).head? = (t ++ ['\'']).head? := by
  cases t with
  | nil => rfl
  | cons c t =>
    by_cases hc : c = '\''
    · subst hc
      rfl
    · rw [List.flatMap_cons, doubled_eq hc]
      rfl

theorem atBlank_doubled (t rest : Text) : atBlank (t.flatMap doubled ++ '\'' :: rest) = atBlank (t ++ ['\'']) := by
  have byHead : ∀ u : Text, atBlank u = u.head?.all fun d => isBlank d || isBreak d := fun u => by cases u <;> rfl
  rw [byHead, byHead, head?_doubled]

/-- Does a text begin with so many of one character, and then with a blank? -/
def begins (m : Char) : Nat → Text → Bool
  | 0, t => atBlank t
  | n + 1, c :: t => c = m && begins m n t
  | _ + 1, [] => false

theorem atMarker_eq (m : Char) (t : Text) : atMarker m t = begins m 3 t := by
  match t with
  | [] | [_] | [_, _] => simp [atMarker, begins]
  | x :: y :: z :: t => simp [atMarker, begins, Bool.and_assoc]

/-- Apostrophes are part of no marker, so a marker stays one if they are all doubled. -/
theorem begins_doubled {m : Char} (hm : m ≠ '\'') (n : Nat) (t rest : Text) :
    begins m n (t.flatMap doubled ++ '\'' :: rest) = begins m n (t ++ ['\'']) := by
  have apostrophe : ∀ n u u', begins m (n + 1) ('\'' :: u) = begins m (n + 1) ('\'' :: u') := fun n u u' => by
    simp [begins, hm.symm]
  induction n generalizing t with
  | zero => exact atBlank_doubled t rest
  | succ n ih =>
    cases t with
    | nil => exact apostrophe n _ _
    | cons c t =>
      by_cases hc : c = '\''
      · subst hc
        exact apostrophe n _ _
      · rw [List.flatMap_cons, doubled_eq hc, List.append_assoc, List.singleton_append, List.cons_append, begins,
          begins, ih]

theorem atDocumentMarker_doubled (t rest : Text) :
    atDocumentMarker (t.flatMap doubled ++ '\'' :: rest) = atDocumentMarker (t ++ ['\'']) := by
  rw [atDocumentMarker, atDocumentMarker]
  simp only [atMarker_eq]
  rw [begins_doubled (by decide), begins_doubled (by decide)]

end Doubled

/-- No line feed comes to stand behind a carriage return. -/
theorem crlf_doubled {c : Char} {t : Text} (h : ∀ u, c = '\r' → t = '\n' :: u → False) (rest : Text) :
    ∀ u, c = '\r' → t.flatMap doubled ++ '\'' :: rest = '\n' :: u → False := by
  intro u hc heq
  have head := head?_doubled t rest
  rw [heq] at head
  cases t with
  | nil => cases head
  | cons d t =>
    cases head
    exact h t hc rfl

section Steps
variable {line column : Nat} {gap : Gap} {c : Char} {t : Text}

theorem singleQuoted_other (hc : c ≠ '\'') (h : ∀ u, c = '\r' → t = '\n' :: u → False) :
    singleQuoted line column gap (c :: t) =
      if isBreak c then singleQuoted (line + 1) 0 (gap.addBreak c) t
      else if isBlank c then singleQuoted line (column + 1) (gap.addBlank c) t
      else if column = 0 && atDocumentMarker (c :: t) then none
      else withText (gap.text ++ [c]) <$> singleQuoted line (column + 1) {} t := by
  by_cases behind : ∃ u, t = '\'' :: u
  · obtain ⟨u, rfl⟩ := behind
    rw [singleQuoted.eq_3 _ _ _ _ _ h, if_neg hc]
  · rw [singleQuoted.eq_4 _ _ _ _ _ h fun u hu => behind ⟨u, hu⟩, if_neg hc]

/-- No marker begins with an apostrophe. -/
theorem apostrophe_marks_nothing : ¬(decide (column = 0) && atDocumentMarker ('\'' :: t)) = true := by
  simp [atDocumentMarker, atMarker_eq, begins]

theorem singleQuoted_pair : singleQuoted line column gap ('\'' :: '\'' :: t) =
    withText (gap.text ++ ['\'']) <$> singleQuoted line (column + 2) {} t := by
  rw [singleQuoted.eq_3 _ _ _ _ _ (fun _ h => absurd h (by decide)), if_neg (by decide), if_neg (by decide),
    if_neg apostrophe_marks_nothing, if_pos rfl]

theorem singleQuoted_end (ht : t.head? ≠ some '\'') :
    singleQuoted line column gap ('\'' :: t) = some (gap.text, ⟨t, line, column + 1⟩) := by
  have other : ∀ u, t = '\'' :: u → False := by
    rintro u rfl
    exact ht rfl
  rw [singleQuoted.eq_4 _ _ _ _ _ (fun _ h => absurd h (by decide)) other, if_neg (by decide), if_neg (by decide),
    if_neg apostrophe_marks_nothing, if_pos rfl]

theorem singleQuoted_doubled_cons (hc : c ≠ '\'') (h : ∀ u, c = '\r' → t = '\n' :: u → False) (rest : Text) :
    singleQuoted line column gap ((c :: t).flatMap doubled ++ '\'' :: rest) =
      if isBreak c then singleQuoted (line + 1) 0 (gap.addBreak c) (t.flatMap doubled ++ '\'' :: rest)
      else if isBlank c then singleQuoted line (column + 1) (gap.addBlank c) (t.flatMap doubled ++ '\'' :: rest)
      else if column = 0 && atDocumentMarker (c :: t ++ ['\'']) then none
      else withText (gap.text ++ [c]) <$> singleQuoted line (column + 1) {} (t.flatMap doubled ++ '\'' :: rest) := by
  have step : (c :: t).flatMap doubled ++ '\'' :: rest = c :: (t.flatMap doubled ++ '\'' :: rest) := by
    rw [List.flatMap_cons, doubled_eq hc, List.append_assoc, List.singleton_append]
  rw [← atDocumentMarker_doubled (c :: t) rest, step]
  exact singleQuoted_other hc (crlf_doubled h rest)

end Steps

theorem rel_withText {v rest : Text} {x : Option Text} {y : Option (Text × Cursor)}
    (h : Option.Rel (fun u r => r.1 = u ∧ r.2.rest = rest) x y) :
    Option.Rel (fun u r => r.1 = u ∧ r.2.rest = rest) ((v ++ ·) <$> x) (withText v <$> y) := by
  cases h with
  | none => exact .none
  | some h => exact .some ⟨congrArg (v ++ ·) h.1, h.2⟩

/-- In single quotes a text is read as what it folds into, and the reading ends behind the closing apostrophe. -/
theorem singleQuoted_doubled {rest : Text} (hrest : rest.head? ≠ some '\'') (t : Text) (line column : Nat) (gap : Gap) :
    Option.Rel (fun u r => r.1 = u ∧ r.2.rest = rest) (folded (decide (column = 0)) gap t)
      (singleQuoted line column gap (t.flatMap doubled ++ '\'' :: rest)) := by
  generalize hstart : decide (column = 0) = atStart
  fun_induction folded atStart gap t generalizing line column with
  | case1 atStart gap =>
    rw [List.flatMap_nil, List.nil_append, singleQuoted_end hrest]
    exact .some ⟨rfl, rfl⟩
  | case2 atStart gap t ih => exact ih (line + 1) 0 rfl
  | case3 atStart gap c t hcrlf hc ih =>
    have plain : c ≠ '\'' := by
      rintro rfl
      cases hc
    rw [singleQuoted_doubled_cons plain hcrlf, if_pos hc]
    exact ih (line + 1) 0 rfl
  | case4 atStart gap c t hcrlf hc hblank ih =>
    have plain : c ≠ '\'' := by
      rintro rfl
      cases hblank
    rw [singleQuoted_doubled_cons plain hcrlf, if_neg hc, if_pos hblank]
    exact ih line (column + 1) rfl
  | case5 atStart gap c t hcrlf hc hblank hmarker =>
    have plain : c ≠ '\'' := by
      rintro rfl
      exact apostrophe_marks_nothing (hstart ▸ hmarker)
    rw [singleQuoted_doubled_cons plain hcrlf, if_neg hc, if_neg hblank, hstart, if_pos hmarker]
    exact .none
  | case6 atStart gap c t hcrlf hc hblank hmarker ih =>
    have later (n : Nat) := ih line (column + (n + 1)) (decide_eq_false (Nat.succ_ne_zero _))
    by_cases plain : c = '\''
    · subst plain
      show Option.Rel _ _ (singleQuoted line column gap ('\'' :: '\'' :: (t.flatMap doubled ++ '\'' :: rest)))
      rw [singleQuoted_pair]
      exact rel_withText (later 1)
    · rw [singleQuoted_doubled_cons plain hcrlf, if_neg hc, if_neg hblank, hstart, if_neg hmarker]
      exact rel_withText (later 0)

/-! ### Texts that are kept

    Blanks in a line are kept. Breaks are kept if the first of them is a separator and all others are separators or line
    feeds, with no blanks before or between them. -/

/-- What stands directly before a place in a text; `lost` if something in the gap there is not read as it is. -/
inductive Before where
  | text
  | blanks
  | breaks
  | lost
deriving DecidableEq, Repr

/-- Over one blank or break. -/
def Before.next : Before → Char → Before
  | text, c => if isBlank c then blanks else if isSeparator c then breaks else lost
  | blanks, c => if isBlank c then blanks else lost
  | breaks, c => if c = '\n' || isSeparator c then breaks else lost
  | lost, _ => lost

/-- Is a text in single quotes read as it is, from a place on? -/
def isKept (p : Before) : Text → Bool
  | [] => p != .lost
  | c :: t =>
    if isGap c then isKept (p.next c) t
    else p != .lost && !(p == .breaks && atDocumentMarker (c :: t ++ ['\''])) && isKept .text t

/-- However a gap goes on, it does not become the text that it is read from. A gap becomes no longer than that text. -/
def Lost (gap : Gap) (h : Text) : Prop :=
  gap.opensLine = true ∧ ∀ m k : Text, m.length ≤ k.length → { gap with more := gap.more ++ m }.text ≠ h ++ k

/-- The gap that is read from `h`. -/
def Before.Holds : Before → Gap → Text → Prop
  | text, gap, h => gap = {} ∧ h = []
  | blanks, gap, h => gap = { blanks := h } ∧ h ≠ []
  | breaks, gap, h =>
    ∃ s more, isSeparator s = true ∧ gap = { opensLine := true, first := some s, more } ∧ h = s :: more
  | lost, gap, h => Lost gap h

section Kept
variable {gap : Gap} {h : Text} {c : Char} {p : Before}

theorem Lost.ne (lost : Lost gap h) : gap.text ≠ h := by
  have same := lost.2 [] [] le_rfl
  rwa [List.append_nil, List.append_nil] at same

theorem Lost.append (lost : Lost gap h) (u : Text) : Lost gap (h ++ u) := by
  refine ⟨lost.1, fun m k hmk => ?_⟩
  rw [List.append_assoc]
  exact lost.2 m (u ++ k) (hmk.trans (List.length_append ▸ Nat.le_add_left _ _))

theorem Lost.addBlank (lost : Lost gap h) (c : Char) : Lost (gap.addBlank c) (h ++ [c]) := by
  rw [Gap.addBlank, if_pos lost.1]
  exact lost.append [c]

theorem Lost.addBreak (lost : Lost gap h) (c : Char) : Lost (gap.addBreak c) (h ++ [c]) := by
  rw [Gap.addBreak, if_pos lost.1]
  refine ⟨lost.1, fun m k hmk => ?_⟩
  rw [List.append_assoc, List.append_assoc]
  exact lost.2 (foldBreak c :: m) (c :: k) (Nat.succ_le_succ hmk)

theorem Lost.of_length (opens : gap.opensLine = true) (short : 1 + gap.more.length < h.length) : Lost gap h := by
  refine ⟨opens, fun m k hmk heq => ?_⟩
  have le : ({ gap with more := gap.more ++ m } : Gap).text.length ≤ 1 + (gap.more ++ m).length := Gap.length_text opens
  rw [heq, List.length_append, List.length_append] at le
  omega

/-- A gap that begins with a break which is read as a line feed becomes a space, or loses that break. -/
theorem Lost.of_lineFeed (hc : c ≠ ' ') : Lost { opensLine := true, first := some '\n' } [c] := by
  refine ⟨rfl, fun m k hmk heq => ?_⟩
  cases m with
  | nil => exact hc (List.cons.inj heq).1.symm
  | cons d m =>
    have length := congrArg List.length heq
    simp [Gap.text] at length hmk
    omega

/-- Behind a separator every break is read as a line feed or as itself. -/
theorem Lost.of_break {s : Char} {more : Text} (hs : isSeparator s = true) (hc : foldBreak c ≠ c) :
    Lost { opensLine := true, first := some s, more := more ++ [foldBreak c] } (s :: more ++ [c]) := by
  refine ⟨rfl, fun m k _ heq => ?_⟩
  have text := Gap.text_of_isSeparator hs (more ++ [foldBreak c] ++ m)
  rw [text, List.cons_append, List.cons_append, List.append_assoc, List.append_assoc] at heq
  have behind := List.append_cancel_left (List.cons.inj heq).2
  exact hc (List.cons.inj behind).1

theorem Before.Holds.text_eq_iff (holds : p.Holds gap h) : gap.text = h ↔ p ≠ .lost := by
  cases p with
  | text =>
    obtain ⟨rfl, rfl⟩ := holds
    simp [Gap.text]
  | blanks =>
    obtain ⟨rfl, -⟩ := holds
    simp [Gap.text]
  | breaks =>
    obtain ⟨s, more, hs, rfl, rfl⟩ := holds
    simp [Gap.text_of_isSeparator hs]
  | lost => exact ⟨fun same => absurd same holds.ne, fun found => absurd rfl found⟩

theorem Before.Holds.addBlank (holds : p.Holds gap h) (hc : isBlank c = true) :
    (p.next c).Holds (gap.addBlank c) (h ++ [c]) := by
  cases p with
  | text =>
    obtain ⟨rfl, rfl⟩ := holds
    rw [Before.next, if_pos hc]
    exact ⟨rfl, List.cons_ne_nil _ _⟩
  | blanks =>
    obtain ⟨rfl, -⟩ := holds
    rw [Before.next, if_pos hc]
    exact ⟨rfl, List.append_ne_nil_of_right_ne_nil _ (List.cons_ne_nil _ _)⟩
  | breaks =>
    obtain ⟨s, more, hs, rfl, rfl⟩ := holds
    rw [Before.next, if_neg (not_isFeed_of_isBlank hc)]
    exact Lost.of_length rfl (by simp [Gap.addBlank]; omega)
  | lost => exact Lost.addBlank holds c

theorem Before.Holds.addBreak (holds : p.Holds gap h) (hc : isBreak c = true) :
    (p.next c).Holds (gap.addBreak c) (h ++ [c]) := by
  have noblank := not_isBlank_of_isBreak hc
  cases p with
  | text =>
    obtain ⟨rfl, rfl⟩ := holds
    rw [Before.next, if_neg noblank]
    cases hs : isSeparator c with
    | true => exact ⟨c, [], hs, by rw [Gap.addBreak, foldBreak_of_isSeparator hs]; rfl, rfl⟩
    | false =>
      have nospace : c ≠ ' ' := by
        rintro rfl
        cases hc
      rw [Gap.addBreak, foldBreak_of_not_isSeparator hs]
      exact Lost.of_lineFeed nospace
  | blanks =>
    obtain ⟨rfl, hne⟩ := holds
    rw [Before.next, if_neg noblank]
    have length := List.length_pos_iff.mpr hne
    exact Lost.of_length rfl (by simp [Gap.addBreak]; omega)
  | breaks =>
    obtain ⟨s, more, hs, rfl, rfl⟩ := holds
    rw [Before.next]
    split
    · next kept =>
      have same : foldBreak c = c := by
        rcases Bool.or_eq_true_iff.mp kept with hc | hc
        · rw [of_decide_eq_true hc]
          rfl
        · exact foldBreak_of_isSeparator hc
      exact ⟨s, more ++ [c], hs, by rw [Gap.addBreak, if_pos rfl, same], rfl⟩
    · next other =>
      have changed : foldBreak c ≠ c := by
        intro same
        refine other (Bool.or_eq_true_iff.mpr ?_)
        cases hs : isSeparator c with
        | true => exact .inr rfl
        | false => exact .inl (decide_eq_true (same.symm.trans (foldBreak_of_not_isSeparator hs)))
      exact Lost.of_break hs changed
  | lost => exact Lost.addBreak holds c

/-- A carriage return and a line feed are read as one break. -/
theorem Before.Holds.addCrlf (holds : p.Holds gap h) : Lost (gap.addBreak '\n') (h ++ ['\r', '\n']) := by
  have next : p.next '\r' = .lost := by cases p <;> rfl
  have lost := holds.addBreak (c := '\r') rfl
  rw [next] at lost
  exact (List.append_assoc h ['\r'] ['\n']) ▸ Lost.append lost ['\n']


/-- A gap ends where the next other character stands. -/
theorem append_cons_eq_iff {h' t u : Text} (loose' : ∀ d ∈ h', isGap d = true) (loose : ∀ d ∈ h, isGap d = true)
    (hc : isGap c = false) : h' ++ c :: u = h ++ c :: t ↔ h' = h ∧ u = t := by
  have before {v w : Text} (hv : ∀ d ∈ v, isGap d = true) : (v ++ c :: w).takeWhile isGap = v := by
    rw [List.takeWhile_append_of_pos hv, List.takeWhile_cons_of_neg (Bool.not_eq_true _ ▸ hc), List.append_nil]
  refine ⟨fun same => ?_, fun same => same.1 ▸ same.2 ▸ rfl⟩
  obtain rfl : h' = h := (before loose').symm.trans (same ▸ before loose)
  exact ⟨rfl, (List.cons.inj (List.append_cancel_left same)).2⟩

theorem Before.next_break (p : Before) (hc : isBreak c = true) :
    p.next c = .lost ∨ true = (p.next c == .breaks) := by
  cases p with
  | text =>
    rw [Before.next, if_neg (not_isBlank_of_isBreak hc)]
    split
    · exact .inr rfl
    · exact .inl rfl
  | blanks => exact .inl (if_neg (not_isBlank_of_isBreak hc))
  | breaks =>
    rw [Before.next]
    split
    · exact .inr rfl
    · exact .inl rfl
  | lost => exact .inl rfl

theorem Before.next_blank (p : Before) (hc : isBlank c = true) :
    p.next c = .lost ∨ false = (p.next c == .breaks) := by
  cases p with
  | text | blanks => exact .inr (by rw [Before.next, if_pos hc]; rfl)
  | breaks => exact .inl (if_neg (not_isFeed_of_isBlank hc))
  | lost => exact .inl rfl

/-- The text of a gap, and what follows, is read as it is exactly if what follows is kept. -/
theorem folded_eq_iff {atStart : Bool} (holds : p.Holds gap h) (loose : gap.Loose) (hloose : ∀ d ∈ h, isGap d = true)
    (hstart : p = .lost ∨ atStart = (p == .breaks)) (t : Text) :
    folded atStart gap t = some (h ++ t) ↔ isKept p t = true := by
  have extended {g : Text} {c : Char} (hg : ∀ d ∈ g, isGap d = true) (hc : isGap c = true) :
      ∀ d ∈ g ++ [c], isGap d = true := by
    intro d hd
    rcases List.mem_append.mp hd with hd | hd
    · exact hg d hd
    · rw [List.mem_singleton.mp hd, hc]
  fun_induction folded atStart gap t generalizing p h with
  | case1 atStart gap =>
    rw [List.append_nil, Option.some_inj, holds.text_eq_iff]
    simp [isKept]
  | case2 atStart gap t ih =>
    have next : p.next '\r' = .lost := by cases p <;> rfl
    have kept : isKept p ('\r' :: '\n' :: t) = isKept .lost t := congrArg (isKept · ('\n' :: t)) next
    rw [kept, List.append_cons h, List.append_cons _ '\n']
    have lost := holds.addCrlf
    rw [List.append_cons] at lost
    exact ih lost (loose.addBreak rfl) (extended (extended hloose rfl) rfl) (.inl rfl)
  | case3 atStart gap c t hcrlf hc ih =>
    rw [isKept, if_pos (isGap_of_isBreak hc), List.append_cons]
    exact ih (holds.addBreak hc) (loose.addBreak hc) (extended hloose (isGap_of_isBreak hc)) (p.next_break hc)
  | case4 atStart gap c t hcrlf hc hblank ih =>
    rw [isKept, if_pos (isGap_of_isBlank hblank), List.append_cons]
    exact ih (holds.addBlank hblank) (loose.addBlank hblank) (extended hloose (isGap_of_isBlank hblank))
      (p.next_blank hblank)
  | case5 atStart gap c t hcrlf hc hblank hmarker =>
    have noStart : (p != .lost && !(p == .breaks && atDocumentMarker (c :: t ++ ['\'']))) = false := by
      rcases hstart with rfl | hp
      · rfl
      · rw [← hp, hmarker, Bool.not_true, Bool.and_false]
    rw [isKept, if_neg (by simp [isGap, hc, hblank]), noStart]
    exact iff_of_false nofun nofun
  | case6 atStart gap c t hcrlf hc hblank hmarker ih =>
    have other : isGap c = false := by simp [isGap, hc, hblank]
    have more : folded false {} t = some t ↔ isKept .text t = true :=
      ih (p := .text) (h := []) ⟨rfl, rfl⟩ Gap.loose_nil (List.forall_mem_nil _) (.inr rfl)
    have found : gap.text ++ c :: t = h ++ c :: t ↔ p ≠ .lost := by
      rw [append_cons_eq_iff loose.text hloose other, holds.text_eq_iff, and_iff_left rfl]
    have unmarked : (p != .lost && !(p == .breaks && atDocumentMarker (c :: t ++ ['\'']))) = (p != .lost) := by
      rcases hstart with rfl | hp
      · rfl
      · rw [← hp, eq_false_of_ne_true hmarker, Bool.not_false, Bool.and_true]
    rw [isKept, if_neg (by simp [other]), unmarked, Bool.and_eq_true, ← more, bne_iff_ne, ← found]
    constructor
    · intro read
      obtain ⟨u, hu, same⟩ := Option.map_eq_some_iff.mp read
      rw [List.append_assoc] at same
      obtain ⟨-, rfl⟩ := (append_cons_eq_iff loose.text hloose other).mp same
      exact ⟨same, hu⟩
    · rintro ⟨same, hu⟩
      rw [hu, ← same, Option.map_eq_map, Option.map_some, List.append_assoc, List.singleton_append]

theorem folded_eq_self_iff (t : Text) : folded false {} t = some t ↔ isKept .text t = true :=
  folded_eq_iff (p := .text) (h := []) ⟨rfl, rfl⟩ Gap.loose_nil (List.forall_mem_nil _) (.inr rfl) t

/-- A text of one line is kept. -/
theorem isKept_of_unbroken (hp : p = .text ∨ p = .blanks) {t : Text} (ht : ∀ c ∈ t, isBreak c = false) :
    isKept p t = true := by
  induction t generalizing p with
  | nil => rcases hp with rfl | rfl <;> rfl
  | cons c t ih =>
    obtain ⟨hc, ht⟩ := List.forall_mem_cons.mp ht
    rw [isKept, isGap, hc, Bool.or_false]
    split
    · next hblank =>
      have next : p.next c = .blanks := by rcases hp with rfl | rfl <;> exact if_pos hblank
      exact ih (.inr next) ht
    · rw [ih (.inl rfl) ht]
      rcases hp with rfl | rfl <;> rfl

end Kept

end Scalar
end ShellCompletion.Yaml

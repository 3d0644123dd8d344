import Mathlib.Data.List.Infix
import Mathlib.Data.Option.Basic
import ShellCompletion.Yaml.Token.Lexing

/-! What stands before a text does not matter to how the text is read. With other tokens before it and further lines
    above it a lexer reads the same tokens, and more steps make no difference. This is shown for texts in which nothing
    is quoted, tagged or named, which is all that a hand-written model needs after its name. Lines that are empty or
    comments are passed over, whatever comes after them. -/

namespace ShellCompletion.Yaml

/-! ### Cursors -/

namespace Cursor
variable {c : Cursor} {n : Nat}

/-- The same place some lines further down. -/
def down (n : Nat) (c : Cursor) : Cursor := { c with line := c.line + n }

@[simp] theorem rest_down : (c.down n).rest = c.rest := rfl

@[simp] theorem column_down : (c.down n).column = c.column := rfl

@[simp] theorem skipWhile_down (p : Char → Bool) : (c.down n).skipWhile p = (c.skipWhile p).down n := rfl

@[simp] theorem skipComment_down : (c.down n).skipComment = c.skipComment.down n := by
  obtain ⟨_ | ⟨x, t⟩, line, column⟩ := c
  · rfl
  · by_cases hx : x = '#'
    · subst hx
      rfl
    · simp [skipComment, down, hx]

@[simp] theorem skipBreak_down : (c.down n).skipBreak = c.skipBreak.down n := by
  unfold skipBreak
  rw [rest_down]
  split <;> simp [down, Nat.add_right_comm]

theorem skipMany_suffix (k : Nat) (c : Cursor) : (c.skipMany k).rest <:+ c.rest := List.drop_suffix k c.rest

theorem skipWhile_suffix (p : Char → Bool) (c : Cursor) : (c.skipWhile p).rest <:+ c.rest := skipMany_suffix _ c

theorem skipComment_suffix (c : Cursor) : c.skipComment.rest <:+ c.rest := by
  unfold skipComment
  split
  · exact skipWhile_suffix _ c
  · exact List.suffix_refl _

theorem skipBreak_suffix (c : Cursor) : c.skipBreak.rest <:+ c.rest := by
  unfold skipBreak
  split
  · next heq =>
    rw [heq]
    exact ⟨['\r', '\n'], rfl⟩
  · next heq =>
    rw [heq]
    exact List.suffix_cons _ _
  · exact List.suffix_refl _

theorem length_skipBreak {c : Cursor} (h : c.rest.head?.any isBreak = true) :
    c.skipBreak.rest.length < c.rest.length := by
  obtain ⟨_ | ⟨x, t⟩, line, column⟩ := c
  · cases h
  · unfold skipBreak
    split
    · next heq =>
      cases heq
      exact Nat.lt_succ_of_lt (Nat.lt_succ_self _)
    · next heq =>
      cases heq
      exact Nat.lt_succ_self _
    · exact absurd ‹_› (List.cons_ne_nil _ _)

end Cursor

/-! ### Scalars without quotes -/

namespace Scalar
variable {flow : Bool} {least line column n : Nat} {gap : Gap} {t u : Text} {c : Cursor} {opensLine : Bool}

theorem plain_down : plain flow least (line + n) column gap t =
    (plain flow least line column gap t).map fun r => (r.1, r.2.1.down n, r.2.2) := by
  fun_induction plain flow least line column gap t with
  | case1 => rfl
  | case2 line column gap t ih =>
    rw [← ih, Nat.add_right_comm]
    rw [plain]
  | case3 line column gap c t h hc ih =>
    rw [← ih, Nat.add_right_comm, plain, if_pos hc]
    exact h
  | case4 line column gap c t h hc hblank htab =>
    rw [plain, if_neg hc, if_pos hblank, if_pos htab]
    · rfl
    · exact h
  | case5 line column gap c t h hc hblank htab ih =>
    rw [← ih, plain, if_neg hc, if_pos hblank, if_neg htab]
    exact h
  | case6 line column gap c t h hc hblank hstop =>
    rw [plain, if_neg hc, if_neg hblank, if_pos hstop]
    · rfl
    · exact h
  | case7 line column gap c t h hc hblank hstop hcolon =>
    rw [plain, if_neg hc, if_neg hblank, if_neg hstop, if_pos hcolon]
    · rfl
    · exact h
  | case8 line column gap c t h hc hblank hstop hcolon hend =>
    rw [plain, if_neg hc, if_neg hblank, if_neg hstop, if_neg hcolon, if_pos hend]
    · rfl
    · exact h
  | case9 line column gap c t h hc hblank hstop hcolon hend ih =>
    rw [plain, if_neg hc, if_neg hblank, if_neg hstop, if_neg hcolon, if_neg hend, ih]
    · cases plain flow least line (column + 1) {} t <;> rfl
    · exact h

theorem suffix_of_plain (h : plain flow least line column gap t = some (u, c, opensLine)) : c.rest <:+ t := by
  fun_induction plain flow least line column gap t generalizing u with
  | case1 =>
    cases h
    exact List.suffix_refl _
  | case2 line column gap t ih => exact (ih h).trans ⟨['\r', '\n'], rfl⟩
  | case3 line column gap d t _ _ ih => exact (ih h).trans (List.suffix_cons d t)
  | case4 => cases h
  | case5 line column gap d t _ _ _ _ ih => exact (ih h).trans (List.suffix_cons d t)
  | case6 =>
    cases h
    exact List.suffix_refl _
  | case7 => cases h
  | case8 =>
    cases h
    exact List.suffix_refl _
  | case9 line column gap d t _ _ _ _ _ _ ih =>
    obtain ⟨⟨v, r⟩, hr, heq⟩ := Option.map_eq_some_iff.mp h
    cases heq
    exact (ih hr).trans (List.suffix_cons d t)

end Scalar

/-! ### States -/

/-- The same place of a key behind further tokens, some lines further down. -/
def KeyPlace.behind (count lines : Nat) (k : KeyPlace) : KeyPlace :=
  { k with position := k.position + count, line := k.line + lines }

namespace Lexer

/-- Where the next token, comments and breaks apart, may begin on the line. -/
def spaceEnd (s : Lexer) : Cursor :=
  let c := if s.cursor.column = 0 && s.cursor.rest.head?.any isMark then s.cursor.skip else s.cursor
  (c.skipWhile fun x => x = ' ' || ((s.inFlow || !s.keyAllowed) && x = '\t')).skipComment

theorem skipSpace_succ (s : Lexer) (size : Nat) : s.skipSpace (size + 1) =
    if s.spaceEnd.rest.head?.any isBreak then
      skipSpace { s with cursor := s.spaceEnd.skipBreak, keyAllowed := s.keyAllowed || !s.inFlow } size
    else { s with cursor := s.spaceEnd } := rfl

theorem spaceEnd_suffix (s : Lexer) : s.spaceEnd.rest <:+ s.cursor.rest := by
  unfold spaceEnd
  refine (Cursor.skipComment_suffix _).trans ((Cursor.skipWhile_suffix _ _).trans ?_)
  split
  · exact Cursor.skipMany_suffix 1 s.cursor
  · exact List.suffix_refl _

/-- A character that begins no directive, no anchor, reference or tag, and no scalar in quotes or of whole lines. -/
def isUnmarked (c : Char) : Bool := !(['%', '*', '&', '!', '|', '>', '\'', '"'].contains c)

/-- The same state behind older tokens, some lines further down. -/
def behind (older : List Token) (lines : Nat) (s : Lexer) : Lexer :=
  { s with
    cursor := s.cursor.down lines
    tokens := s.tokens ++ older
    count := s.count + older.length
    keys := s.keys.map (Option.map (KeyPlace.behind older.length lines)) }

/-- The one state is the other behind older tokens. It stands in a text, and counts only tokens that it has. -/
structure Behind (older : List Token) (lines : Nat) (text : Text) (s s' : Lexer) : Prop where
  eq : s' = s.behind older lines
  count : s.count ≤ s.tokens.length
  rest : s.cursor.rest <:+ text

/-- Steps that keep to a relation can follow one another. -/
theorem rel_bind {α β γ δ : Type} {R : α → β → Prop} {S : γ → δ → Prop} {x : Option α} {y : Option β}
    {f : α → Option γ} {g : β → Option δ} (h : Option.Rel R x y) (hfg : ∀ a b, R a b → Option.Rel S (f a) (g b)) :
    Option.Rel S (x >>= f) (y >>= g) := by
  cases h with
  | none => exact .none
  | some hab => exact hfg _ _ hab

theorem exists_of_rel {α β : Type} {R : α → β → Prop} {x : Option α} {y : Option β} (h : Option.Rel R x y) {a : α}
    (ha : x = some a) : ∃ b, y = some b ∧ R a b := by
  cases h with
  | none => cases ha
  | some hab =>
    cases ha
    exact ⟨_, rfl, hab⟩

theorem rel_ite {α β : Type} {R : α → β → Prop} {p : Prop} [Decidable p] {x x' : Option α} {y y' : Option β}
    (h : p → Option.Rel R x y) (h' : Option.Rel R x' y') :
    Option.Rel R (if p then x else x') (if p then y else y') := by
  split
  · next hp => exact h hp
  · exact h'

variable {older : List Token} {lines : Nat} {text : Text} {s s' : Lexer}

namespace Behind

theorem inFlow (h : Behind older lines text s s') : s'.inFlow = s.inFlow := by
  rw [h.eq]
  rfl

theorem column (h : Behind older lines text s s') : s'.cursor.column = s.cursor.column := by
  rw [h.eq]
  rfl

theorem rest_eq (h : Behind older lines text s s') : s'.cursor.rest = s.cursor.rest := by
  rw [h.eq]
  rfl

theorem keyAllowed (h : Behind older lines text s s') : s'.keyAllowed = s.keyAllowed := by
  rw [h.eq]
  rfl

theorem allow (h : Behind older lines text s s') (allowed : Bool) :
    Behind older lines text { s with keyAllowed := allowed } { s' with keyAllowed := allowed } where
  eq := by rw [h.eq]; rfl
  count := h.count
  rest := h.rest

theorem push (h : Behind older lines text s s') (t : Token) : Behind older lines text (s.push t) (s'.push t) where
  eq := by
    rw [h.eq]
    simp [Lexer.push, behind, Nat.add_right_comm]
  count := Nat.succ_le_succ h.count
  rest := h.rest

theorem skipMany (h : Behind older lines text s s') (n : Nat) :
    Behind older lines text (s.skipMany n) (s'.skipMany n) where
  eq := by rw [h.eq]; rfl
  count := h.count
  rest := (s.cursor.skipMany_suffix n).trans h.rest

theorem insertAt (h : Behind older lines text s s') (position : Nat) (ts : List Token) :
    Behind older lines text (s.insertAt position ts) (s'.insertAt (position + older.length) ts) where
  eq := by
    have later : s.count + older.length - (position + older.length) = s.count - position := by omega
    have within : s.count - position - s.tokens.length = 0 := by
      have := h.count
      omega
    rw [h.eq]
    simp [Lexer.insertAt, behind, later, List.take_append, List.drop_append, within, Nat.add_right_comm]
  count := by
    have := h.count
    simp [Lexer.insertAt]
    omega
  rest := h.rest

theorem setKey (h : Behind older lines text s s') (k : Option KeyPlace) :
    Behind older lines text (s.setKey k) (s'.setKey (k.map (KeyPlace.behind older.length lines))) where
  eq := by
    rw [h.eq]
    simp [Lexer.setKey, behind]
  count := h.count
  rest := h.rest

theorem currentKey (h : Behind older lines text s s') :
    s'.currentKey = s.currentKey.map (KeyPlace.behind older.length lines) := by
  rw [h.eq]
  obtain ⟨_, _, _, _, _, keys, _, _⟩ := s
  cases keys <;> rfl

theorem openBracket (h : Behind older lines text s s') :
    Behind older lines text { s with keys := none :: s.keys, depth := s.depth + 1 }
      { s' with keys := none :: s'.keys, depth := s'.depth + 1 } where
  eq := by rw [h.eq]; rfl
  count := h.count
  rest := h.rest

theorem closeBracket (h : Behind older lines text s s') :
    Behind older lines text { s with keys := s.keys.drop 1, depth := s.depth - 1 }
      { s' with keys := s'.keys.drop 1, depth := s'.depth - 1 } where
  eq := by rw [h.eq]; simp [behind]
  count := h.count
  rest := h.rest

theorem openBlock (h : Behind older lines text s s') (column : Nat) (t : Token) :
    Behind older lines text (s.openBlock column t) (s'.openBlock column t) := by
  have deepens : s'.deepens column = s.deepens column := by
    rw [h.eq]
    rfl
  have indented : Behind older lines text (s.indentTo column) (s'.indentTo column) := by
    refine ⟨?_, h.count, h.rest⟩
    rw [h.eq]
    rfl
  rw [Lexer.openBlock, Lexer.openBlock, deepens]
  split
  · exact indented.push t
  · exact h

theorem closeBlocks (h : Behind older lines text s s') (column : Int) :
    Behind older lines text (s.closeBlocks column) (s'.closeBlocks column) := by
  rw [Lexer.closeBlocks, Lexer.closeBlocks, h.inFlow]
  split
  · exact h
  · refine ⟨?_, ?_, h.rest⟩
    · rw [h.eq]
      simp [behind, Nat.add_right_comm]
    · have := h.count
      simp
      omega

theorem removeKey (h : Behind older lines text s s') :
    Option.Rel (Behind older lines text) s.removeKey s'.removeKey := by
  have required : s'.currentKey.any (·.required) = s.currentKey.any (·.required) := by
    rw [h.currentKey]
    cases s.currentKey <;> rfl
  rw [Lexer.removeKey, Lexer.removeKey, required]
  split
  · exact .none
  · exact .some (h.setKey none)

theorem saveKey (h : Behind older lines text s s') : Option.Rel (Behind older lines text) s.saveKey s'.saveKey := by
  rw [Lexer.saveKey, Lexer.saveKey, h.keyAllowed]
  split
  · refine rel_bind h.removeKey fun t t' ht => ?_
    have place := ht.setKey (some ⟨t.count, !t.inFlow && t.indent == t.cursor.column, t.cursor.line, t.cursor.column⟩)
    refine .some ?_
    rw [ht.eq] at place ⊢
    exact place
  · exact .some h

theorem dropStale (h : Behind older lines text s s') :
    Option.Rel (Behind older lines text) s.dropStale s'.dropStale := by
  have stale (k : KeyPlace) : isStale (s.cursor.down lines) (k.behind older.length lines) = isStale s.cursor k := by
    have line : decide (k.line + lines < s.cursor.line + lines) = decide (k.line < s.cursor.line) :=
      decide_eq_decide.mpr Nat.add_lt_add_iff_right
    rw [isStale, isStale, ← line]
    rfl
  have required (k : KeyPlace) : (k.behind older.length lines).required = k.required := rfl
  rw [Lexer.dropStale, Lexer.dropStale, h.eq]
  simp only [behind, List.any_map, List.map_map, Function.comp_def, Option.any_map, Option.filter_map, stale, required]
  split
  · exact .none
  · refine .some ⟨?_, h.count, h.rest⟩
    simp [behind, Function.comp_def]

theorem skipSpace (h : Behind older lines text s s') (size : Nat) :
    Behind older lines text (s.skipSpace size) (s'.skipSpace size) := by
  induction size generalizing s s' with
  | zero => exact h
  | succ size ih =>
    have ends : s'.spaceEnd = s.spaceEnd.down lines := by
      rw [spaceEnd, spaceEnd, h.inFlow, h.eq]
      simp only [behind, Cursor.column_down, Cursor.rest_down]
      rw [← Cursor.skipComment_down, ← Cursor.skipWhile_down, apply_ite (Cursor.down lines)]
      rfl
    have suffix : s.spaceEnd.rest <:+ text := s.spaceEnd_suffix.trans h.rest
    rw [skipSpace_succ, skipSpace_succ, ends, Cursor.rest_down]
    split
    · refine ih ⟨?_, h.count, s.spaceEnd.skipBreak_suffix.trans suffix⟩
      rw [h.eq]
      simp [behind, Lexer.inFlow]
    · refine ⟨?_, h.count, suffix⟩
      rw [h.eq]
      rfl

theorem endBlocks (h : Behind older lines text s s') :
    Option.Rel (Behind older lines text) s.endBlocks s'.endBlocks :=
  rel_bind (h.closeBlocks (-1)).removeKey fun _ _ ht => .some (ht.allow false)

/-! ### Tokens -/

theorem lexMarker (h : Behind older lines text s s') (t : Token) :
    Option.Rel (Behind older lines text) (s.lexMarker t) (s'.lexMarker t) :=
  rel_bind h.endBlocks fun _ _ ht => .some ((ht.push t).skipMany 3)

theorem lexFlowStart (h : Behind older lines text s s') (t : Token) :
    Option.Rel (Behind older lines text) (s.lexFlowStart t) (s'.lexFlowStart t) :=
  rel_bind h.saveKey fun _ _ hu => .some (((hu.push t).skipMany 1).openBracket.allow true)

theorem lexFlowEnd (h : Behind older lines text s s') (t : Token) :
    Option.Rel (Behind older lines text) (s.lexFlowEnd t) (s'.lexFlowEnd t) := by
  refine rel_bind h.removeKey fun u u' hu => .some ?_
  rw [hu.inFlow]
  split
  · exact ((hu.closeBracket.push t).skipMany 1).allow false
  · exact ((hu.push t).skipMany 1).allow false

theorem lexFlowEntry (h : Behind older lines text s s') :
    Option.Rel (Behind older lines text) s.lexFlowEntry s'.lexFlowEntry :=
  rel_bind h.removeKey fun _ _ ht => .some (((ht.push .flowEntry).skipMany 1).allow true)

theorem lexBlockEntry (h : Behind older lines text s s') :
    Option.Rel (Behind older lines text) s.lexBlockEntry s'.lexBlockEntry := by
  rw [Lexer.lexBlockEntry, Lexer.lexBlockEntry, h.inFlow, h.keyAllowed, h.column]
  split
  · exact .none
  · exact rel_bind (h.openBlock _ _).removeKey fun _ _ hu => .some (((hu.push .blockEntry).skipMany 1).allow true)

theorem lexKey (h : Behind older lines text s s') :
    Option.Rel (Behind older lines text) s.lexKey s'.lexKey := by
  rw [Lexer.lexKey, Lexer.lexKey, h.inFlow, h.keyAllowed, h.column]
  split
  · exact .none
  · refine rel_bind (h.openBlock _ _).removeKey fun u u' hu => .some ?_
    rw [hu.inFlow]
    exact ((hu.push .key).skipMany 1).allow _

theorem lexValue (h : Behind older lines text s s') :
    Option.Rel (Behind older lines text) s.lexValue s'.lexValue := by
  rw [Lexer.lexValue, Lexer.lexValue, h.currentKey]
  cases s.currentKey with
  | none =>
    dsimp only [Option.map_none]
    rw [h.inFlow, h.keyAllowed, h.column]
    split
    · exact .none
    · have opened := h.openBlock s.cursor.column .blockMapping
      rw [opened.inFlow]
      exact .some (((opened.push .value).skipMany 1).allow _)
  | some k =>
    have closed : Behind older lines text (s.setKey none) (s'.setKey none) := h.setKey none
    have deepens : (s'.setKey none).deepens (k.behind older.length lines).column =
        (s.setKey none).deepens k.column := by
      rw [h.eq]
      rfl
    have indented : Behind older lines text ((s.setKey none).indentTo k.column)
        ((s'.setKey none).indentTo (k.behind older.length lines).column) := by
      refine ⟨?_, h.count, h.rest⟩
      rw [closed.eq]
      rfl
    dsimp only [Option.map_some]
    rw [deepens]
    split
    · exact .some (((indented.insertAt k.position [.key, .blockMapping]).push .value).skipMany 1 |>.allow false)
    · exact .some (((closed.insertAt k.position [.key]).push .value).skipMany 1 |>.allow false)

theorem lexPlain (h : Behind older lines text s s') :
    Option.Rel (Behind older lines text) s.lexPlain s'.lexPlain := by
  refine rel_bind h.saveKey fun t t' ht => ?_
  have read : Scalar.plain t'.inFlow (t'.indent + 1).toNat t'.cursor.line t'.cursor.column {} t'.cursor.rest =
      (Scalar.plain t.inFlow (t.indent + 1).toNat t.cursor.line t.cursor.column {} t.cursor.rest).map
        fun r => (r.1, r.2.1.down lines, r.2.2) := by
    rw [ht.eq]
    exact Scalar.plain_down
  dsimp only
  rw [read]
  cases hplain : Scalar.plain t.inFlow (t.indent + 1).toNat t.cursor.line t.cursor.column {} t.cursor.rest with
  | none => exact .none
  | some r =>
    obtain ⟨u, c, opensLine⟩ := r
    have pushed := ht.push (.scalar .plain u)
    refine .some ⟨?_, pushed.count, (Scalar.suffix_of_plain hplain).trans ht.rest⟩
    show { t'.push (.scalar .plain u) with cursor := c.down lines, keyAllowed := opensLine } = _
    rw [pushed.eq]
    rfl

theorem startsPlain (h : Behind older lines text s s') (c : Char) (t : Text) :
    s'.startsPlain c t = s.startsPlain c t := by
  rw [Lexer.startsPlain, Lexer.startsPlain, h.inFlow]

theorem lexToken (h : Behind older lines text s s') {c : Char} (hc : isUnmarked c = true) (t : Text) :
    Option.Rel (Behind older lines text) (s.lexToken c t) (s'.lexToken c t) := by
  have other : ∀ d, isUnmarked d = false → c ≠ d := by
    rintro d hd rfl
    rw [hd] at hc
    cases hc
  rw [Lexer.lexToken, Lexer.lexToken, h.column, h.inFlow, h.startsPlain]
  refine rel_ite (fun hp => absurd (decide_eq_true_iff.mp (Bool.and_eq_true_iff.mp hp).2) (other '%' rfl)) ?_
  refine rel_ite (fun _ => h.lexMarker _) ?_
  refine rel_ite (fun _ => h.lexMarker _) ?_
  refine rel_ite (fun _ => h.lexFlowStart _) ?_
  refine rel_ite (fun _ => h.lexFlowStart _) ?_
  refine rel_ite (fun _ => h.lexFlowEnd _) ?_
  refine rel_ite (fun _ => h.lexFlowEnd _) ?_
  refine rel_ite (fun _ => h.lexFlowEntry) ?_
  refine rel_ite (fun _ => h.lexBlockEntry) ?_
  refine rel_ite (fun _ => h.lexKey) ?_
  refine rel_ite (fun _ => h.lexValue) ?_
  refine rel_ite (fun hp => absurd hp (other '*' rfl)) ?_
  refine rel_ite (fun hp => absurd hp (other '&' rfl)) ?_
  refine rel_ite (fun hp => absurd hp (other '!' rfl)) ?_
  refine rel_ite (fun hp => absurd (decide_eq_true_iff.mp (Bool.and_eq_true_iff.mp hp).1) (other '|' rfl)) ?_
  refine rel_ite (fun hp => absurd (decide_eq_true_iff.mp (Bool.and_eq_true_iff.mp hp).1) (other '>' rfl)) ?_
  refine rel_ite (fun hp => absurd hp (other '\'' rfl)) ?_
  refine rel_ite (fun hp => absurd hp (other '"' rfl)) ?_
  exact rel_ite (fun _ => h.lexPlain) .none

end Behind

/-! ### Runs -/

/-- Any bound will do that is above the length of the text. -/
theorem skipSpace_eq {n m : Nat} (hn : s.cursor.rest.length < n) (hm : s.cursor.rest.length < m) :
    s.skipSpace n = s.skipSpace m := by
  induction n generalizing s m with
  | zero => cases hn
  | succ n ih =>
    obtain ⟨m, rfl⟩ := Nat.exists_eq_succ_of_ne_zero (Nat.ne_of_gt (Nat.zero_lt_of_lt hm))
    rw [skipSpace_succ, Nat.succ_eq_add_one, skipSpace_succ]
    split
    · next hbreak =>
      have shorter : s.spaceEnd.skipBreak.rest.length < s.spaceEnd.rest.length := Cursor.length_skipBreak hbreak
      have within := s.spaceEnd_suffix.length_le
      exact ih (by dsimp only; omega) (by dsimp only; omega)
    · rfl

/-- The rest of a text is read as if it stood alone, and what was read before comes first. -/
theorem run_behind {size size' fuel : Nat} {ts : List Token} (h : Behind older lines text s s')
    (unmarked : ∀ c ∈ text, isUnmarked c = true) (hsize : text.length < size) (hsize' : text.length < size')
    (hrun : run size fuel s = some ts) (more : Nat) : run size' (fuel + more) s' = some (older.reverse ++ ts) := by
  induction fuel generalizing s s' with
  | zero => cases hrun
  | succ fuel ih =>
    have within := h.rest.length_le
    have space : s'.skipSpace size' = s'.skipSpace size :=
      skipSpace_eq (by rw [h.rest_eq]; omega) (by rw [h.rest_eq]; omega)
    rw [Nat.succ_add, run, space]
    obtain ⟨u, hu, hrun⟩ := Option.bind_eq_some_iff.mp hrun
    obtain ⟨u', hu', hbehind⟩ := exists_of_rel (h.skipSpace size).dropStale hu
    rw [hu', Option.bind_eq_bind, Option.bind_some]
    dsimp only at hrun ⊢
    have closed := hbehind.closeBlocks u.cursor.column
    rw [hbehind.column]
    generalize u.closeBlocks u.cursor.column = v at closed hrun
    generalize u'.closeBlocks u.cursor.column = v' at closed
    rw [closed.rest_eq]
    cases hrest : v.cursor.rest with
    | nil =>
      rw [hrest] at hrun
      obtain ⟨w, hw, hts⟩ := Option.bind_eq_some_iff.mp hrun
      obtain ⟨w', hw', hended⟩ := exists_of_rel closed.endBlocks hw
      have pushed := (hended.push .streamEnd).eq
      cases hts
      dsimp only
      rw [hw', Option.bind_some, pushed]
      simp [behind]
    | cons c t =>
      rw [hrest] at hrun
      obtain ⟨w, hw, hrun⟩ := Option.bind_eq_some_iff.mp hrun
      have hc : c ∈ text := closed.rest.subset (by rw [hrest]; exact List.mem_cons_self)
      obtain ⟨w', hw', hread⟩ := exists_of_rel (closed.lexToken (unmarked c hc) t) hw
      dsimp only
      rw [hw', Option.bind_some]
      exact ih hread hrun

/-! ### Lines without tokens -/

/-- A line that is empty or a comment. -/
def isNote (l : Text) : Bool := l.head?.all (· == '#') && l.all (!isBreak ·)

section Lines
variable {s : Lexer} {l t : Text} {line column size : Nat}

theorem spaceEnd_note (hl : isNote l = true) : { s with cursor := ⟨l ++ '\n' :: t, line, column⟩ }.spaceEnd =
    ⟨'\n' :: t, line, column + l.length⟩ := by
  obtain ⟨hhead, hbreaks⟩ := Bool.and_eq_true_iff.mp hl
  cases l with
  | nil =>
    rw [spaceEnd]
    simp [Cursor.skipWhile, Cursor.skipMany, Cursor.skipComment, isMark]
  | cons c l =>
    obtain rfl : c = '#' := by simpa using hhead
    have comment : ('#' :: l ++ '\n' :: t).takeWhile (fun x => !isBreak x) = '#' :: l := by
      rw [List.takeWhile_append_of_pos (List.all_eq_true.mp hbreaks)]
      simp [isBreak]
    simp only [List.cons_append] at comment
    simp [spaceEnd, Cursor.skipWhile, Cursor.skipMany, Cursor.skipComment, isMark, comment]

theorem skipSpace_note (hl : isNote l = true) (size : Nat) :
    { s with cursor := ⟨l ++ '\n' :: t, line, column⟩ }.skipSpace (size + 1) =
      { s with cursor := ⟨t, line + 1, 0⟩, keyAllowed := s.keyAllowed || !s.inFlow }.skipSpace size := by
  rw [skipSpace_succ, spaceEnd_note hl]
  rfl

theorem run_note (hl : isNote l = true) (hsize : (l ++ '\n' :: t).length < size) (fuel : Nat) :
    run size fuel { s with cursor := ⟨l ++ '\n' :: t, line, column⟩ } =
      run size fuel { s with cursor := ⟨t, line + 1, 0⟩, keyAllowed := s.keyAllowed || !s.inFlow } := by
  cases fuel with
  | zero => rfl
  | succ fuel =>
    obtain ⟨size, rfl⟩ := Nat.exists_eq_succ_of_ne_zero (Nat.ne_of_gt (Nat.zero_lt_of_lt hsize))
    have shorter : t.length < size := by
      simp at hsize
      omega
    have space : { s with cursor := ⟨l ++ '\n' :: t, line, column⟩ }.skipSpace (size + 1) =
        { s with cursor := ⟨t, line + 1, 0⟩, keyAllowed := s.keyAllowed || !s.inFlow }.skipSpace size :=
      skipSpace_note hl size
    have same : { s with cursor := ⟨t, line + 1, 0⟩, keyAllowed := s.keyAllowed || !s.inFlow }.skipSpace size =
        skipSpace _ (size + 1) := skipSpace_eq shorter (Nat.lt_succ_of_lt shorter)
    rw [run, run, space, same]

theorem run_token {u : Lexer} {c : Char}
    (hspace : (s.skipSpace size).dropStale.map (fun s => s.closeBlocks s.cursor.column) = some u)
    (hrest : u.cursor.rest = c :: t) (fuel : Nat) : run size (fuel + 1) s = (u.lexToken c t).bind (run size fuel) := by
  obtain ⟨v, hv, rfl⟩ := Option.map_eq_some_iff.mp hspace
  rw [run, hv, Option.bind_eq_bind, Option.bind_some]
  dsimp only
  rw [hrest]

theorem run_notes (line : Nat) (ls : List Text) (hls : ls.all isNote = true) (allowed : s.keyAllowed = true)
    (hsize : (Text.unlines ls ++ t).length < size) (fuel : Nat) :
    run size fuel { s with cursor := ⟨Text.unlines ls ++ t, line, 0⟩ } =
      run size fuel { s with cursor := ⟨t, line + ls.length, 0⟩ } := by
  induction ls generalizing line with
  | nil => rfl
  | cons l ls ih =>
    obtain ⟨hl, hls⟩ := Bool.and_eq_true_iff.mp hls
    have lines : Text.unlines (l :: ls) ++ t = l ++ '\n' :: (Text.unlines ls ++ t) := by simp [Text.unlines]
    rw [lines] at hsize ⊢
    have shorter : (Text.unlines ls ++ t).length < size := by
      rw [List.length_append, List.length_cons] at hsize
      omega
    have same : ({ s with cursor := ⟨Text.unlines ls ++ t, line + 1, 0⟩, keyAllowed := true || !s.inFlow } : Lexer) =
        { s with cursor := ⟨Text.unlines ls ++ t, line + 1, 0⟩ } := by rw [Bool.true_or, ← allowed]
    rw [run_note hl hsize, allowed, same, ih (line + 1) hls shorter, List.length_cons, Nat.add_assoc, Nat.add_comm 1,
      allowed]

end Lines

end Lexer
end ShellCompletion.Yaml

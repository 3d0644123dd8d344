import Mathlib.Data.List.Basic
import ShellCompletion.Schema.Terse

/-! Texts cut at separators. A text writes words if they stand in it in order, with separators between neighbours and
    perhaps before the first and behind the last. Words without separators are read off any text that writes them, and
    every text writes its own pieces; so a text is cut into the words that it writes, and only these. Aliases that are
    declared in one text are cut in this way at spaces and commas. -/

namespace ShellCompletion

namespace Text
variable {sep : Char → Bool} {c : Char} {t u gap word : Text} {words : List Text}

/-! ### Cutting -/

/-- The pieces of a text are what stands between two separators, as far as that is anything. -/
theorem piecesFrom_eq_filter (sep : Char → Bool) (piece t : Text) :
    piecesFrom sep piece t = (t.splitOnPPrepend sep piece.reverse).filter (!·.isEmpty) := by
  induction t generalizing piece with
  | nil =>
    cases piece with
    | nil => rfl
    | cons c piece => simp [piecesFrom, List.splitOnPPrepend]
  | cons c t ih =>
    rw [piecesFrom, List.splitOnPPrepend_cons_eq_if]
    by_cases hc : sep c = true
    · rw [if_pos hc, if_pos hc, ih, List.reverse_reverse, List.filter_cons]
      cases piece <;> rfl
    · rw [if_neg hc, if_neg hc, ih, List.reverse_append]
      rfl

theorem pieces_eq_filter (sep : Char → Bool) (t : Text) : t.pieces sep = (t.splitOnP sep).filter (!·.isEmpty) :=
  piecesFrom_eq_filter sep [] t

/-- A text falls apart at a separator. -/
theorem pieces_append_cons (hc : sep c = true) (t u : Text) :
    pieces sep (t ++ c :: u) = t.pieces sep ++ u.pieces sep := by
  simp only [pieces_eq_filter]
  rw [List.splitOnP_append_cons t u hc, List.filter_append]

/-- A piece of a text: no empty one, and none with a separator in it. -/
structure IsPiece (sep : Char → Bool) (t : Text) : Prop where
  ne_nil : t ≠ []
  free : ∀ c ∈ t, sep c = false

theorem isPiece_iff : IsPiece sep t ↔ t ≠ [] ∧ t.all (!sep ·) = true := by
  simp only [List.all_eq_true, Bool.not_eq_true']
  exact ⟨fun h => ⟨h.ne_nil, h.free⟩, fun h => ⟨h.1, h.2⟩⟩

theorem IsPiece.pieces_eq (h : IsPiece sep word) : word.pieces sep = [word] := by
  rw [pieces_eq_filter, List.splitOnP_eq_singleton h.free]
  simp [h.ne_nil]

/-- A piece that has begun is one by itself unless it is still empty. -/
theorem isPiece_of_mem_begun {piece : Text} (hpiece : ∀ c ∈ piece, sep c = false)
    (hword : word ∈ if piece.isEmpty then [] else [piece]) : IsPiece sep word := by
  split at hword
  · cases hword
  · next hne =>
    obtain rfl := List.mem_singleton.mp hword
    exact ⟨by simpa using hne, hpiece⟩

theorem isPiece_of_mem_piecesFrom {piece : Text} (hpiece : ∀ c ∈ piece, sep c = false)
    (hword : word ∈ piecesFrom sep piece t) : IsPiece sep word := by
  induction t generalizing piece with
  | nil => exact isPiece_of_mem_begun hpiece hword
  | cons c t ih =>
    rw [piecesFrom] at hword
    split at hword
    · rcases List.mem_append.mp hword with hword | hword
      · exact isPiece_of_mem_begun hpiece hword
      · exact ih (List.forall_mem_nil _) hword
    · next hc =>
      refine ih ?_ hword
      simp only [List.forall_mem_append, List.forall_mem_singleton]
      exact ⟨hpiece, by simpa using hc⟩

theorem isPiece_of_mem_pieces (hword : word ∈ t.pieces sep) : IsPiece sep word :=
  isPiece_of_mem_piecesFrom (List.forall_mem_nil _) hword

/-! ### Writing -/

/-- Nothing but separators. -/
def IsGap (sep : Char → Bool) (gap : Text) : Prop := ∀ c ∈ gap, sep c = true

theorem IsGap.pieces_append (hgap : IsGap sep gap) (t : Text) : pieces sep (gap ++ t) = t.pieces sep := by
  induction gap with
  | nil => rfl
  | cons c gap ih =>
    obtain ⟨hc, hgap⟩ := List.forall_mem_cons.mp hgap
    exact (pieces_append_cons hc [] (gap ++ t)).trans (ih hgap)

theorem IsGap.pieces_eq_nil (hgap : IsGap sep gap) : gap.pieces sep = [] := by
  have alone := hgap.pieces_append []
  rwa [List.append_nil] at alone

/-- The text writes the words in order: there are separators between neighbours, and there may be some before the
    first and behind the last. -/
inductive Writes (sep : Char → Bool) : List Text → Text → Prop
  | nothing {gap : Text} (hgap : IsGap sep gap) : Writes sep [] gap
  | last {before word after : Text} (hbefore : IsGap sep before) (hafter : IsGap sep after) :
      Writes sep [word] (before ++ word ++ after)
  | more {before word gap : Text} {words : List Text} {rest : Text} (hbefore : IsGap sep before) (hgap : IsGap sep gap)
      (hne : gap ≠ []) (hrest : Writes sep words rest) : Writes sep (word :: words) (before ++ word ++ (gap ++ rest))

/-- A separator more at the front makes no difference. -/
theorem Writes.cons (hc : sep c = true) (h : Writes sep words t) : Writes sep words (c :: t) := by
  have longer : ∀ {gap}, IsGap sep gap → IsGap sep (c :: gap) := fun hgap => List.forall_mem_cons.mpr ⟨hc, hgap⟩
  cases h with
  | nothing hgap => exact .nothing (longer hgap)
  | last hbefore hafter => exact .last (longer hbefore) hafter
  | more hbefore hgap hne hrest => exact .more (longer hbefore) hgap hne hrest

/-- A text writes its pieces, the first of which may have begun before it. -/
theorem writes_piecesFrom (sep : Char → Bool) (piece t : Text) : Writes sep (piecesFrom sep piece t) (piece ++ t) := by
  have empty : IsGap sep [] := List.forall_mem_nil _
  induction t generalizing piece with
  | nil =>
    cases piece with
    | nil => exact .nothing empty
    | cons c piece => exact .last empty empty
  | cons c t ih =>
    rw [piecesFrom]
    split
    · next hc =>
      cases piece with
      | nil => exact (ih []).cons hc
      | cons d piece =>
        have single : IsGap sep [c] := List.forall_mem_singleton.mpr hc
        exact .more empty single (List.cons_ne_nil _ _) (ih [])
    · have step := ih (piece ++ [c])
      rwa [List.append_assoc] at step

/-- Words without separators are the pieces of any text that writes them. -/
theorem Writes.pieces_eq (h : Writes sep words t) (hwords : ∀ word ∈ words, IsPiece sep word) :
    t.pieces sep = words := by
  induction h with
  | nothing hgap => exact hgap.pieces_eq_nil
  | @last before word after hbefore hafter =>
    have hword := hwords word List.mem_cons_self
    rw [List.append_assoc, hbefore.pieces_append]
    cases after with
    | nil => rw [List.append_nil, hword.pieces_eq]
    | cons c after =>
      obtain ⟨hc, hafter⟩ := List.forall_mem_cons.mp hafter
      rw [pieces_append_cons hc, hword.pieces_eq, IsGap.pieces_eq_nil hafter, List.append_nil]
  | @more before word gap words rest hbefore hgap hne hrest ih =>
    obtain ⟨hword, hwords⟩ := List.forall_mem_cons.mp hwords
    obtain ⟨c, gap, rfl⟩ := List.exists_cons_of_ne_nil hne
    obtain ⟨hc, hgap⟩ := List.forall_mem_cons.mp hgap
    rw [List.append_assoc, hbefore.pieces_append, List.cons_append, pieces_append_cons hc, hword.pieces_eq,
      IsGap.pieces_append hgap, ih hwords]
    rfl

/-- A text is cut into words exactly if it writes them and none of them could be cut further. -/
theorem pieces_eq_iff : t.pieces sep = words ↔ (∀ word ∈ words, IsPiece sep word) ∧ Writes sep words t := by
  constructor
  · rintro rfl
    exact ⟨fun _ => isPiece_of_mem_pieces, writes_piecesFrom sep [] t⟩
  · rintro ⟨hwords, hwrites⟩
    exact hwrites.pieces_eq hwords

theorem IsGap.filter_eq_nil (hgap : IsGap sep gap) : gap.filter (!sep ·) = [] :=
  List.filter_eq_nil_iff.mpr fun c hc => by simp [hgap c hc]

theorem IsPiece.filter_eq (h : IsPiece sep word) : word.filter (!sep ·) = word :=
  List.filter_eq_self.mpr fun c hc => by simp [h.free c hc]

/-- Without its separators a text is the words that it writes, one after the other. -/
theorem Writes.flatten_eq (h : Writes sep words t) (hwords : ∀ word ∈ words, IsPiece sep word) :
    words.flatten = t.filter (!sep ·) := by
  induction h with
  | nothing hgap => exact hgap.filter_eq_nil.symm
  | last hbefore hafter =>
    rw [List.filter_append, List.filter_append, hbefore.filter_eq_nil, hafter.filter_eq_nil,
      (hwords _ List.mem_cons_self).filter_eq]
    simp
  | more hbefore hgap _ _ ih =>
    obtain ⟨hword, hwords⟩ := List.forall_mem_cons.mp hwords
    rw [List.filter_append, List.filter_append, List.filter_append, hbefore.filter_eq_nil, hgap.filter_eq_nil,
      hword.filter_eq, ← ih hwords]
    simp

end Text

namespace Terse
open Text

/-- What separates aliases in one text. -/
def isNameSeparator (c : Char) : Bool := isSpace c || c = ','

/-- Aliases in one text are read as exactly the names that it writes: from every text that writes names without spaces
    and commas these names are read, and from no other. What is read from a text are always such names, and put
    together they are the text without its spaces and commas. -/
theorem names_are_those_written (text : Text) :
    (∀ names : List Text, (∀ name ∈ names, IsPiece isNameSeparator name) → Writes isNameSeparator names text →
      splitNames text = names) ∧
    (∀ name ∈ splitNames text, IsPiece isNameSeparator name) ∧ Writes isNameSeparator (splitNames text) text ∧
    (splitNames text).flatten = text.filter (!isNameSeparator ·) := by
  obtain ⟨hpieces, hwrites⟩ := pieces_eq_iff.mp (rfl : text.pieces isNameSeparator = splitNames text)
  refine ⟨fun names hnames hwrites => ?_, hpieces, hwrites, hwrites.flatten_eq hpieces⟩
  exact pieces_eq_iff.mpr ⟨hnames, hwrites⟩

/-- Two names with separators on all sides, of which an ideographic space is one. -/
theorem names_are_those_written_surrounded :
    Writes isNameSeparator ["-h".toList, "--help".toList] " ,-h\u3000, --help,".toList ∧
      splitNames " ,-h\u3000, --help,".toList = ["-h".toList, "--help".toList] := by
  have front : IsGap isNameSeparator " ,".toList := List.all_eq_true.mp rfl
  have middle : IsGap isNameSeparator "\u3000, ".toList := List.all_eq_true.mp rfl
  have back : IsGap isNameSeparator ",".toList := List.all_eq_true.mp rfl
  have writes : Writes isNameSeparator ["-h".toList, "--help".toList] " ,-h\u3000, --help,".toList :=
    .more front middle (List.cons_ne_nil _ _) (.last (List.forall_mem_nil _) back)
  have names : ∀ name ∈ ["-h".toList, "--help".toList], IsPiece isNameSeparator name :=
    List.forall_mem_cons.mpr ⟨isPiece_iff.mpr ⟨List.cons_ne_nil _ _, rfl⟩,
      List.forall_mem_singleton.mpr (isPiece_iff.mpr ⟨List.cons_ne_nil _ _, rfl⟩)⟩
  exact ⟨writes, (names_are_those_written _).1 _ names writes⟩

end Terse
end ShellCompletion

import ShellCompletion.CompletionFunction

/-! Shell names of paths never collide. A coded character stands between underscores and its code has none, so
    an encoded segment is read off character by character; a segment's length ends at an underscore, too, and
    says where the segment ends. Hence a path is determined by its name, behind any stem. All of the name but its stem
    are letters, digits and underscores. -/

namespace ShellCompletion

namespace Text

/-- What stands before the first mark and what follows it are read off a text. -/
theorem append_cons_inj {mark : Char} {u v s t : Text} (hu : mark ∉ u) (hv : mark ∉ v)
    (h : u ++ mark :: s = v ++ mark :: t) : u = v ∧ s = t := by
  induction u generalizing v with
  | nil =>
    cases v with
    | nil => exact ⟨rfl, (List.cons.inj h).2⟩
    | cons d v => exact absurd (List.mem_cons.mpr (Or.inl (List.cons.inj h).1)) hv
  | cons c u ih =>
    cases v with
    | nil => exact absurd (List.mem_cons.mpr (Or.inl (List.cons.inj h).1.symm)) hu
    | cons d v =>
      obtain ⟨rfl, htail⟩ := List.cons.inj h
      obtain ⟨rfl, hst⟩ := ih (List.not_mem_of_not_mem_cons hu) (List.not_mem_of_not_mem_cons hv) htail
      exact ⟨rfl, hst⟩

/-! ### Numerals -/

variable {base m n : Nat}

theorem digitChar_inj : ∀ m < 16, ∀ n < 16, m.digitChar = n.digitChar → m = n := by decide

theorem isAlphanum_digitChar : ∀ n < 16, n.digitChar.isAlphanum = true := by decide

theorem isAlphanum_of_mem_toDigits (hb : 1 < base) (hb' : base ≤ 16) {c : Char} (hc : c ∈ Nat.toDigits base n) :
    c.isAlphanum = true := by
  induction n using Nat.strongRecOn with
  | ind n ih =>
    rw [Nat.toDigits_eq_if hb] at hc
    split at hc
    · obtain rfl := List.mem_singleton.mp hc
      exact isAlphanum_digitChar n (by omega)
    · rcases List.mem_append.mp hc with hc | hc
      · exact ih _ (Nat.div_lt_self (by omega) hb) hc
      · obtain rfl := List.mem_singleton.mp hc
        exact isAlphanum_digitChar _ (Nat.lt_of_lt_of_le (Nat.mod_lt n (by omega)) hb')

theorem underscore_notMem_toDigits (hb : 1 < base) (hb' : base ≤ 16) : '_' ∉ Nat.toDigits base n :=
  fun h => absurd (isAlphanum_of_mem_toDigits hb hb' h) (by decide)

/-- A number is determined by its numeral: the last digit is the remainder, the others are the quotient. -/
theorem toDigits_inj (hb : 1 < base) (hb' : base ≤ 16) (h : Nat.toDigits base m = Nat.toDigits base n) : m = n := by
  induction m using Nat.strongRecOn generalizing n with
  | ind m ih =>
    have digit : ∀ k, k % base < 16 := fun k => Nat.lt_of_lt_of_le (Nat.mod_lt k (by omega)) hb'
    have positive : ∀ k, Nat.toDigits base k ≠ [] := fun _ => Nat.toDigits_ne_nil
    rw [Nat.toDigits_eq_if hb (n := m), Nat.toDigits_eq_if hb (n := n)] at h
    split at h <;> split at h
    · exact digitChar_inj m (by omega) n (by omega) (List.singleton_inj.mp h)
    · exact absurd (List.append_eq_singleton_iff.mp h.symm) (by simp [positive])
    · exact absurd (List.append_eq_singleton_iff.mp h) (by simp [positive])
    · obtain ⟨hq, hr⟩ := List.append_inj' h rfl
      have hq := ih _ (Nat.div_lt_self (by omega) hb) hq
      have hr := digitChar_inj _ (digit m) _ (digit n) (List.singleton_inj.mp hr)
      rw [← Nat.div_add_mod m base, ← Nat.div_add_mod n base, hq, hr]

end Text

namespace Shell.Identifier

/-! ### Segments -/

/-- What stands between the underscores where a character is coded. -/
def code (c : Char) : Text := if c = '_' then [] else Text.hexadecimal c.toNat

theorem encodeChar_eq (c : Char) :
    encodeChar c = if c.isAlphanum then [c] else '_' :: (code c ++ ['_']) := by
  unfold encodeChar code
  by_cases ha : c.isAlphanum = true
  · simp only [ha, if_true]
  · by_cases hu : c = '_' <;> simp [ha, hu]

theorem encodeChar_ne_nil (c : Char) : encodeChar c ≠ [] := by
  rw [encodeChar_eq]
  split <;> simp

theorem underscore_notMem_code (c : Char) : '_' ∉ code c := by
  unfold code
  split
  · simp
  · exact Text.underscore_notMem_toDigits (by decide) (by decide)

theorem code_inj {c d : Char} (h : code c = code d) : c = d := by
  unfold code at h
  split at h <;> split at h
  · next hc hd => rw [hc, hd]
  · exact absurd h.symm Nat.toDigits_ne_nil
  · exact absurd h Nat.toDigits_ne_nil
  · exact Char.toNat_inj.mp (Text.toDigits_inj (by decide) (by decide) h)

/-- An encoded character is no beginning of another. -/
theorem encodeChar_append_inj {c d : Char} {s t : Text} (h : encodeChar c ++ s = encodeChar d ++ t) :
    c = d ∧ s = t := by
  rw [encodeChar_eq, encodeChar_eq] at h
  split at h <;> split at h
  · simpa using h
  · next hc _ =>
    obtain rfl : c = '_' := by simpa using congrArg List.head? h
    exact absurd hc (by decide)
  · next _ hd =>
    obtain rfl : '_' = d := by simpa using congrArg List.head? h
    exact absurd hd (by decide)
  · simp only [List.cons_append, List.append_assoc, List.nil_append, List.cons.injEq, true_and] at h
    obtain ⟨hcode, hst⟩ := Text.append_cons_inj (underscore_notMem_code c) (underscore_notMem_code d) h
    exact ⟨code_inj hcode, hst⟩

theorem encode_inj {s t : Text} (h : encode s = encode t) : s = t := by
  unfold encode at h
  induction s generalizing t with
  | nil =>
    cases t with
    | nil => rfl
    | cons d t => exact absurd (List.append_eq_nil_iff.mp h.symm).1 (encodeChar_ne_nil d)
  | cons c s ih =>
    cases t with
    | nil => exact absurd (List.append_eq_nil_iff.mp h).1 (encodeChar_ne_nil c)
    | cons d t =>
      obtain ⟨rfl, hst⟩ := encodeChar_append_inj h
      rw [ih hst]

/-- A character of a name: an ASCII letter or digit, or the underscore. -/
def IsNameChar (c : Char) : Prop := c.isAlphanum = true ∨ c = '_'

theorem isNameChar_of_mem_toDigits {base n : Nat} (hb : 1 < base) (hb' : base ≤ 16) {c : Char}
    (hc : c ∈ Nat.toDigits base n) : IsNameChar c :=
  Or.inl (Text.isAlphanum_of_mem_toDigits hb hb' hc)

theorem isNameChar_of_mem_encode {segment : Text} {c : Char} (hc : c ∈ encode segment) : IsNameChar c := by
  obtain ⟨d, -, hc⟩ := List.mem_flatMap.mp hc
  rw [encodeChar_eq] at hc
  split at hc
  · next halnum =>
    obtain rfl := List.mem_singleton.mp hc
    exact Or.inl halnum
  · simp only [List.mem_cons, List.mem_append, List.not_mem_nil, or_false] at hc
    rcases hc with rfl | hc | rfl
    · exact Or.inr rfl
    · unfold code at hc
      split at hc
      · cases hc
      · exact isNameChar_of_mem_toDigits (by decide) (by decide) hc
    · exact Or.inr rfl

/-! ### Paths -/

/-- The name of a path consists of letters, digits and underscores. -/
theorem isNameChar_of_mem_ofPath {path : List Text} {c : Char} (hc : c ∈ ofPath path) : IsNameChar c := by
  obtain ⟨segment, -, hc⟩ := List.mem_flatMap.mp hc
  simp only [framed, List.mem_append, List.mem_singleton] at hc
  rcases hc with ((rfl | hc) | rfl) | hc
  · exact Or.inr rfl
  · exact isNameChar_of_mem_toDigits (by decide) (by decide) hc
  · exact Or.inr rfl
  · exact isNameChar_of_mem_encode hc

/-- The length in front of a segment says where the segment ends. -/
theorem framed_append_inj {s t u v : Text} (h : framed s ++ u = framed t ++ v) : s = t ∧ u = v := by
  unfold framed at h
  simp only [List.append_assoc, List.cons_append, List.nil_append, List.cons.injEq, true_and] at h
  have free : ∀ n, '_' ∉ Text.decimal n := fun n => Text.underscore_notMem_toDigits (by decide) (by decide)
  obtain ⟨hlength, hrest⟩ := Text.append_cons_inj (free _) (free _) h
  obtain ⟨hencode, huv⟩ := List.append_inj hrest (Text.toDigits_inj (by decide) (by decide) hlength)
  exact ⟨encode_inj hencode, huv⟩

theorem framed_ne_nil (s : Text) : framed s ≠ [] := by
  simp [framed]

theorem ofPath_inj {p q : List Text} (h : ofPath p = ofPath q) : p = q := by
  unfold ofPath at h
  induction p generalizing q with
  | nil =>
    cases q with
    | nil => rfl
    | cons t q => exact absurd (List.append_eq_nil_iff.mp h.symm).1 (framed_ne_nil t)
  | cons s p ih =>
    cases q with
    | nil => exact absurd (List.append_eq_nil_iff.mp h).1 (framed_ne_nil s)
    | cons t q =>
      obtain ⟨rfl, hpq⟩ := framed_append_inj h
      rw [ih hpq]

theorem ofPath?_eq_ok {p : List Text} (hp : p ≠ []) : ofPath? p = .ok (ofPath p) := by
  simp [ofPath?, hp]

end Shell.Identifier

namespace CompletionFunction

theorem identifierOf_inj {stem : Text} {p q : List Text} (h : identifierOf stem p = identifierOf stem q) : p = q :=
  Shell.Identifier.ofPath_inj (List.append_cancel_left h)

theorem identifierOf?_eq_ok {stem : Text} {p : List Text} (hp : p ≠ []) :
    identifierOf? stem p = .ok (identifierOf stem p) := by
  rw [identifierOf?, Shell.Identifier.ofPath?_eq_ok hp]
  rfl

end CompletionFunction
end ShellCompletion

import Mathlib.Data.List.Basic
import ShellCompletion.Json.Reader
import ShellCompletion.Json.Writer

/-! What is read from a text that was written. A value without numbers is read back from its text, whatever follows
    the text; it is sound if no more arrays and objects stand inside one another than may be open at once. -/

namespace ShellCompletion.Json

mutual

/-- Neither numbers nor anything flawed. -/
def isNumberless : Json → Bool
  | null | bool _ | string _ => true
  | number _ | flawed => false
  | array items => areNumberless items
  | object fields => fieldsAreNumberless fields

def areNumberless : List Json → Bool
  | [] => true
  | j :: js => j.isNumberless && areNumberless js

def fieldsAreNumberless : List (Text × Json) → Bool
  | [] => true
  | (_, j) :: fields => j.isNumberless && fieldsAreNumberless fields

end

theorem areNumberless_iff {js : List Json} : areNumberless js = true ↔ ∀ j ∈ js, j.isNumberless = true := by
  induction js with
  | nil => simp [areNumberless]
  | cons j js ih => simp [areNumberless, ih]

/-! ### Depth -/

mutual

/-- How many arrays and objects stand inside one another. -/
def depth : Json → Nat
  | array items => itemsDepth items + 1
  | object fields => fieldsDepth fields + 1
  | _ => 0

def itemsDepth : List Json → Nat
  | [] => 0
  | j :: js => max j.depth (itemsDepth js)

def fieldsDepth : List (Text × Json) → Nat
  | [] => 0
  | (_, j) :: fields => max j.depth (fieldsDepth fields)

end

mutual

/-- A value without flaws is sound as far as its depth allows. -/
theorem isSound_iff : ∀ {j : Json} {levels : Nat}, j.isNumberless = true →
    (isSound levels j = true ↔ j.depth ≤ levels)
  | null, _, _ | bool _, _, _ | string _, _, _ => by simp [isSound, depth]
  | array items, 0, _ | object fields, 0, _ => by simp [isSound, depth]
  | array items, levels + 1, hj => by
    rw [isSound, depth, Nat.add_le_add_iff_right]
    exact areSound_iff hj
  | object fields, levels + 1, hj => by
    rw [isSound, depth, Nat.add_le_add_iff_right]
    exact fieldsAreSound_iff hj

theorem areSound_iff : ∀ {js : List Json} {levels : Nat}, areNumberless js = true →
    (areSound levels js = true ↔ itemsDepth js ≤ levels)
  | [], _, _ => by simp [areSound, itemsDepth]
  | j :: js, levels, hjs => by
    obtain ⟨hj, hjs⟩ := Bool.and_eq_true_iff.mp hjs
    rw [areSound, itemsDepth, Bool.and_eq_true_iff, isSound_iff hj, areSound_iff hjs, Nat.max_le]

theorem fieldsAreSound_iff : ∀ {fields : List (Text × Json)} {levels : Nat}, fieldsAreNumberless fields = true →
    (fieldsAreSound levels fields = true ↔ fieldsDepth fields ≤ levels)
  | [], _, _ => by simp [fieldsAreSound, fieldsDepth]
  | (_, j) :: fields, levels, hfields => by
    obtain ⟨hj, hfields⟩ := Bool.and_eq_true_iff.mp hfields
    rw [fieldsAreSound, fieldsDepth, Bool.and_eq_true_iff, isSound_iff hj, fieldsAreSound_iff hfields, Nat.max_le]

end

/-! ### Strings -/

/-- The two digits of the escape of a control character. -/
def controlDigits (n : Nat) : Text := (if n < 0x10 then ['0'] else []) ++ Text.hexadecimal n

theorem hexFour?_controlDigits {n : Nat} (hn : n < 0x20) :
    ∃ a b, controlDigits n = [a, b] ∧ hexFour? '0' '0' a b = some n := by
  have digits : ∀ n < 0x20, (controlDigits n).length = 2 ∧
      hexFour? '0' '0' ((controlDigits n).headD '0') ((controlDigits n).getLastD '0') = some n := by decide
  obtain ⟨htwo, hvalue⟩ := digits n hn
  obtain ⟨a, b, hab⟩ := List.length_eq_two.mp htwo
  rw [hab] at hvalue
  exact ⟨a, b, hab, hvalue⟩

theorem stringBody_controlDigits {c : Char} (hc : c.toNat < 0x20) (t : Text) :
    stringBody ("\\u00".toList ++ controlDigits c.toNat ++ t) = withChar c <$> stringBody t := by
  obtain ⟨a, b, hdigits, hvalue⟩ := hexFour?_controlDigits hc
  have high : isHighSurrogate c.toNat = false := by
    simp only [isHighSurrogate, Bool.and_eq_false_imp, decide_eq_true_eq]
    omega
  have low : isLowSurrogate c.toNat = false := by
    simp only [isLowSurrogate, Bool.and_eq_false_imp, decide_eq_true_eq]
    omega
  rw [hdigits]
  show stringBody ('\\' :: 'u' :: '0' :: '0' :: a :: b :: t) = _
  rw [stringBody, hvalue]
  simp only [Option.bind_eq_bind, Option.bind_some, high, low, Bool.false_eq_true, if_false, Char.ofNat_toNat]

theorem stringBody_cons {c : Char} (hquote : c ≠ '"') (hbackslash : c ≠ '\\') (hc : ¬c.toNat < 0x20) (t : Text) :
    stringBody (c :: t) = withChar c <$> stringBody t := by
  rw [stringBody.eq_def]
  split
  · next h => cases h
  · next h => exact absurd (List.cons.inj h).1 hquote
  · next h => exact absurd (List.cons.inj h).1 hbackslash
  · next h => exact absurd (List.cons.inj h).1 hbackslash
  · next h =>
    obtain ⟨rfl, rfl⟩ := List.cons.inj h
    rw [if_neg hc]

/-- A character of a string is read back. -/
theorem stringBody_stringChar (c : Char) (t : Text) : stringBody (stringChar c ++ t) = withChar c <$> stringBody t := by
  unfold stringChar
  split
  case h_8 hquote hbackslash _ _ _ _ _ =>
    split
    · next hc =>
      rw [List.append_assoc "\\u00".toList]
      exact stringBody_controlDigits hc t
    · next hc => exact stringBody_cons hquote hbackslash hc t
  all_goals rfl

theorem stringBody_quoted (t rest : Text) : stringBody (t.flatMap stringChar ++ '"' :: rest) = some (some t, rest) := by
  induction t with
  | nil => rfl
  | cons c t ih =>
    rw [List.flatMap_cons, List.append_assoc, stringBody_stringChar, ih]
    rfl

/-! ### Values -/

theorem skipSpaces_cons {c : Char} (hc : isSpace c = false) (t : Text) : skipSpaces (c :: t) = c :: t :=
  List.dropWhile_cons_of_neg (by simp [hc])

/-- A written value begins with a character that is neither a space nor a closing bracket. -/
theorem exists_text_eq_cons : ∀ {j : Json}, j.isNumberless = true →
    ∃ c t, text j = c :: t ∧ isSpace c = false ∧ c ≠ ']'
  | null, _ | bool true, _ | bool false, _ | string _, _ | array _, _ | object _, _ => ⟨_, _, rfl, rfl, by decide⟩

theorem exists_itemTexts_eq_cons {j : Json} (hj : j.isNumberless = true) (js : List Json) :
    ∃ c t, itemTexts (j :: js) = c :: t ∧ isSpace c = false ∧ c ≠ ']' := by
  obtain ⟨c, t, ht, hc⟩ := exists_text_eq_cons hj
  cases js with
  | nil => exact ⟨c, t, ht, hc⟩
  | cons k js => exact ⟨c, t ++ [','] ++ itemTexts (k :: js), by rw [itemTexts, ht]; rfl, hc⟩

/-- Written fields begin with the quote of a key. -/
theorem exists_fieldTexts_eq_cons (f : Text × Json) (fs : List (Text × Json)) :
    ∃ t, fieldTexts (f :: fs) = '"' :: t := by
  cases fs <;> exact ⟨_, rfl⟩

/-- An array is read from its first item on. -/
theorem value_array {c : Char} (hc : isSpace c = false) (hclose : c ≠ ']') (fuel : Nat) (t : Text) :
    value (fuel + 1) ('[' :: c :: t) = (items fuel (c :: t)).map fun (is, rest) => (array is, rest) := by
  rw [value, skipSpaces_cons (by decide)]
  simp only [skipSpaces_cons hc]
  split
  · next h => exact absurd (List.cons.inj h).1 hclose
  · cases items fuel (c :: t) <;> rfl

/-- An object is read from its first key on. -/
theorem value_object (fuel : Nat) (t : Text) :
    value (fuel + 1) ('\x7b' :: '"' :: t) =
      (fields fuel ('"' :: t)).map fun (fs, rest) => ((fs.map object).getD flawed, rest) := by
  rw [value, skipSpaces_cons (by decide)]
  show (fields fuel ('"' :: t) >>= fun (fs, rest) => some ((fs.map object).getD flawed, rest)) = _
  cases fields fuel ('"' :: t) <;> rfl

section
variable {fuel : Nat} {j : Json} {key t rest : Text}

theorem items_last (h : value fuel t = some (j, ']' :: rest)) : items (fuel + 1) t = some ([j], rest) := by
  rw [items, h]
  rfl

theorem items_more (h : value fuel t = some (j, ',' :: rest)) :
    items (fuel + 1) t = (items fuel rest).map fun (js, rest) => (j :: js, rest) := by
  rw [items, h]
  show (items fuel rest >>= fun (js, rest) => some (j :: js, rest)) = _
  cases items fuel rest <;> rfl

theorem quoted_append (key t : Text) : quoted key ++ t = '"' :: (key.flatMap stringChar ++ '"' :: t) := by
  simp [quoted]

theorem fields_last (h : value fuel t = some (j, '\x7d' :: rest)) :
    fields (fuel + 1) (quoted key ++ ':' :: t) = some (some [(key, j)], rest) := by
  rw [quoted_append, fields, skipSpaces_cons (by decide)]
  simp only [stringBody_quoted, Option.bind_eq_bind, Option.bind_some]
  rw [skipSpaces_cons (by decide)]
  simp only [h, Option.bind_some]
  rfl

theorem fields_more (h : value fuel t = some (j, ',' :: rest)) :
    fields (fuel + 1) (quoted key ++ ':' :: t) =
      (fields fuel rest).map fun (fs, rest) => (fs.map ((key, j) :: ·), rest) := by
  rw [quoted_append, fields, skipSpaces_cons (by decide)]
  simp only [stringBody_quoted, Option.bind_eq_bind, Option.bind_some]
  rw [skipSpaces_cons (by decide)]
  simp only [h, Option.bind_some]
  show (fields fuel rest >>= fun (fs, rest) => some ((fun f fs => f :: fs) <$> some (key, j) <*> fs, rest)) = _
  cases fields fuel rest <;> rfl

end

mutual

/-- A written value is read back, with as much fuel as it has characters. -/
theorem value_text : ∀ {j : Json} {fuel : Nat} {rest : Text}, j.isNumberless = true → (text j).length ≤ fuel →
    value fuel (text j ++ rest) = some (j, rest)
  | j, 0, _, hj, hfuel => by
    obtain ⟨c, t, ht, -⟩ := exists_text_eq_cons hj
    rw [ht] at hfuel
    cases hfuel
  | null, fuel + 1, rest, _, _ | bool true, fuel + 1, rest, _, _ | bool false, fuel + 1, rest, _, _ => rfl
  | string t, fuel + 1, rest, _, _ => by
    rw [text, quoted_append, value, skipSpaces_cons (by decide)]
    simp only [stringBody_quoted]
    rfl
  | array [], fuel + 1, rest, _, _ => rfl
  | array (j :: js), fuel + 1, rest, hjs, hfuel => by
    obtain ⟨c, t, ht, hc, hclose⟩ := exists_itemTexts_eq_cons (Bool.and_eq_true_iff.mp hjs).1 js
    -- The brackets are two more characters, which leaves one step of fuel for the end of the items.
    simp only [text, List.length_append, List.length_singleton] at hfuel
    have hread : items fuel (itemTexts (j :: js) ++ ']' :: rest) = some (j :: js, rest) :=
      items_itemTexts hjs (by omega)
    have line : text (array (j :: js)) ++ rest = '[' :: (itemTexts (j :: js) ++ ']' :: rest) := by simp [text]
    rw [ht, List.cons_append] at hread
    rw [line, ht, List.cons_append, value_array hc hclose, hread]
    rfl
  | object [], fuel + 1, rest, _, _ => rfl
  | object (f :: fs), fuel + 1, rest, hfs, hfuel => by
    obtain ⟨t, ht⟩ := exists_fieldTexts_eq_cons f fs
    simp only [text, List.length_append, List.length_singleton] at hfuel
    have hread : fields fuel (fieldTexts (f :: fs) ++ '\x7d' :: rest) = some (some (f :: fs), rest) :=
      fields_fieldTexts hfs (by omega)
    have line : text (object (f :: fs)) ++ rest = '\x7b' :: (fieldTexts (f :: fs) ++ '\x7d' :: rest) := by simp [text]
    rw [ht, List.cons_append] at hread
    rw [line, ht, List.cons_append, value_object, hread]
    rfl

theorem items_itemTexts : ∀ {j : Json} {js : List Json} {fuel : Nat} {rest : Text}, areNumberless (j :: js) = true →
    (itemTexts (j :: js)).length < fuel → items fuel (itemTexts (j :: js) ++ ']' :: rest) = some (j :: js, rest)
  | _, _, 0, _, _, hfuel => absurd hfuel (Nat.not_lt_zero _)
  | j, [], fuel + 1, rest, hjs, hfuel => by
    obtain ⟨hj, -⟩ := Bool.and_eq_true_iff.mp hjs
    exact items_last (value_text hj (Nat.le_of_lt_succ hfuel))
  | j, k :: js, fuel + 1, rest, hjs, hfuel => by
    obtain ⟨hj, hjs⟩ := Bool.and_eq_true_iff.mp hjs
    have line : itemTexts (j :: k :: js) ++ ']' :: rest =
        text j ++ ',' :: (itemTexts (k :: js) ++ ']' :: rest) := by simp [itemTexts]
    simp only [itemTexts, List.length_append, List.length_singleton] at hfuel
    rw [line, items_more (value_text hj (by omega)), items_itemTexts hjs (by omega)]
    rfl

theorem fields_fieldTexts : ∀ {f : Text × Json} {fs : List (Text × Json)} {fuel : Nat} {rest : Text},
    fieldsAreNumberless (f :: fs) = true → (fieldTexts (f :: fs)).length < fuel →
      fields fuel (fieldTexts (f :: fs) ++ '\x7d' :: rest) = some (some (f :: fs), rest)
  | _, _, 0, _, _, hfuel => absurd hfuel (Nat.not_lt_zero _)
  | (key, j), [], fuel + 1, rest, hfs, hfuel => by
    obtain ⟨hj, -⟩ := Bool.and_eq_true_iff.mp hfs
    have line : fieldTexts [(key, j)] ++ '\x7d' :: rest = quoted key ++ ':' :: (text j ++ '\x7d' :: rest) := by
      simp [fieldTexts]
    simp only [fieldTexts, List.length_append, List.length_singleton] at hfuel
    rw [line]
    exact fields_last (value_text hj (by omega))
  | (key, j), g :: fs, fuel + 1, rest, hfs, hfuel => by
    obtain ⟨hj, hfs⟩ := Bool.and_eq_true_iff.mp hfs
    have line : fieldTexts ((key, j) :: g :: fs) ++ '\x7d' :: rest =
        quoted key ++ ':' :: (text j ++ ',' :: (fieldTexts (g :: fs) ++ '\x7d' :: rest)) := by simp [fieldTexts]
    simp only [fieldTexts, List.length_append, List.length_singleton] at hfuel
    rw [line, fields_more (value_text hj (by omega)), fields_fieldTexts hfs (by omega)]
    rfl

end

/-- A value without numbers is read back from its text. -/
theorem ofText?_text {j : Json} (hj : j.isNumberless = true) : ofText? (text j) = some j := by
  have hvalue : value (2 * (text j).length + 2) (text j ++ []) = some (j, []) := value_text hj (by omega)
  rw [List.append_nil] at hvalue
  rw [ofText?, hvalue]
  rfl

/-- It is sound if it is not too deep. -/
theorem read?_text {j : Json} (hj : j.isNumberless = true) :
    read? (text j) = if j.depth ≤ levelLimit then some j else none := by
  rw [read?, ofText?_text hj]
  simp only [Option.filter_some, isSound_iff hj]

end ShellCompletion.Json

import ShellCompletion.Proofs.Shell.Reading
import ShellCompletion.Shell.Identifier

/-! How the shell reads words in double quotes. There a dollar sign can begin an expansion, a backslash makes the
    characters literal that would be active, and a backquote begins a command; the double quote ends the quotes. A text
    is read as itself exactly if no character of it is active. -/

namespace ShellCompletion.Shell

/-! ### Signs -/

/-- A part of a word as the shell reads it. -/
inductive Sign where
  | literal (c : Char)
  /-- The value of a parameter. -/
  | value (parameter : Text)
  /-- All arguments that were passed on. -/
  | arguments
deriving DecidableEq, Repr

/-- A text that stands for itself. -/
def literals (t : Text) : List Sign := t.map .literal

/-- What the next character stands in. -/
inductive Setting where
  | outside
  | quoted
  | escaped
  /-- Behind a dollar sign. -/
  | dollar
  /-- In the name of a parameter. -/
  | named (name : Text)
  /-- In the name of a parameter in braces. -/
  | braced (name : Text)

/-- The characters that mean something to the shell in double quotes. -/
def isActiveInQuotes (c : Char) : Bool := "$`\"\\".toList.contains c

def isNameStart (c : Char) : Bool := c.isAlpha || c = '_'

def isNamePart (c : Char) : Bool := c.isAlphanum || c = '_'

/-- The parameters that are named by one character, besides the arguments. -/
def isSpecialParameter (c : Char) : Bool := c.isDigit || "*#?-$!".toList.contains c

/-- Does a dollar sign before the character begin an expansion? -/
def beginsExpansion (c : Char) : Bool := isNameStart c || isSpecialParameter c || "@\x7b([".toList.contains c

/-- A character in double quotes: what it leads to, and what it adds to the word. A command is not read. -/
def readQuoted (c : Char) : Option (Setting × List Sign) :=
  if c = '"' then some (.outside, [])
  else if c = '\\' then some (.escaped, [])
  else if c = '$' then some (.dollar, [])
  else if c = '`' then none
  else some (.quoted, [.literal c])

/-- A backslash before a line feed joins the lines, and before a character that is not active it stands for itself. -/
def readEscaped (c : Char) : Option (Setting × List Sign) :=
  if c = '\n' then some (.quoted, [])
  else if isActiveInQuotes c then some (.quoted, [.literal c])
  else some (.quoted, [.literal '\\', .literal c])

/-- A dollar sign before any other character stands for itself. Commands and arithmetic are not read. -/
def readDollar (c : Char) : Option (Setting × List Sign) :=
  if c = '@' then some (.quoted, [.arguments])
  else if c = '\x7b' then some (.braced [], [])
  else if c = '(' || c = '[' then none
  else if isSpecialParameter c then some (.quoted, [.value [c]])
  else if isNameStart c then some (.named [c], [])
  else (readQuoted c).map fun (setting, signs) => (setting, .literal '$' :: signs)

/-- The name of a parameter goes on as far as it can, and the character behind it stands in the quotes again. -/
def readNamed (name : Text) (c : Char) : Option (Setting × List Sign) :=
  if isNamePart c then some (.named (name ++ [c]), [])
  else (readQuoted c).map fun (setting, signs) => (setting, .value name :: signs)

/-- Of the expansions in braces only a value by itself is read. -/
def readBraced (name : Text) (c : Char) : Option (Setting × List Sign) :=
  if c = '\x7d' then if Identifier.isValid name then some (.quoted, [.value name]) else none
  else if isNamePart c then some (.braced (name ++ [c]), [])
  else none

/-- Outside quotes only characters are read that stand for themselves, and blanks between words. -/
def readOutside (c : Char) : Option (Setting × List Sign) :=
  if c = '"' then some (.quoted, []) else if isInert c then some (.outside, [.literal c]) else none

/-- A character in any setting. -/
def readIn : Setting → Char → Option (Setting × List Sign)
  | .outside => readOutside
  | .quoted => readQuoted
  | .escaped => readEscaped
  | .dollar => readDollar
  | .named name => readNamed name
  | .braced name => readBraced name

def Setting.isOutside : Setting → Bool
  | .outside => true
  | _ => false

/-- The words of a text, the first of which continues `word` if it has begun. All quotes have to be closed. -/
def wordsFrom (setting : Setting) (word : Option (List Sign)) : Text → Option (List (List Sign))
  | [] => if setting.isOutside then some word.toList else none
  | c :: t =>
    if setting.isOutside && isBlank c then (wordsFrom .outside none t).map (word.toList ++ ·)
    else
      match readIn setting c with
      | none => none
      | some (next, signs) => wordsFrom next (some (word.getD [] ++ signs)) t

/-- The words of a whole line, each by the signs that it is made of. -/
def readSigns (line : Text) : Option (List (List Sign)) := wordsFrom .outside none line

/-- Does every character stand for itself in double quotes? A dollar sign does if it begins no expansion. -/
def isPlainInQuotes : Text → Bool
  | [] => true
  | c :: t => (c = '$' && !(t.head?.any beginsExpansion) || !isActiveInQuotes c) && isPlainInQuotes t

/-! ### Plain texts -/

section Plain
variable {c d : Char} {w : List Sign} {word : Option (List Sign)} {t rest : Text} {setting : Setting}
  {ws : List (List Sign)}

theorem wordsFrom_cons (h : (setting.isOutside && isBlank c) = false) :
    wordsFrom setting word (c :: t) =
      (readIn setting c).bind fun p => wordsFrom p.1 (some (word.getD [] ++ p.2)) t := by
  rw [wordsFrom, h]
  cases readIn setting c <;> rfl

theorem isActiveInQuotes_eq_false : isActiveInQuotes c = false ↔ c ≠ '$' ∧ c ≠ '`' ∧ c ≠ '"' ∧ c ≠ '\\' := by
  have chars : "$`\"\\".toList = ['$', '`', '"', '\\'] := rfl
  simp [isActiveInQuotes, chars]

theorem readQuoted_eq (hc : isActiveInQuotes c = false) : readQuoted c = some (.quoted, [.literal c]) := by
  obtain ⟨hdollar, hbackquote, hquote, hbackslash⟩ := isActiveInQuotes_eq_false.mp hc
  simp [readQuoted, hdollar, hbackquote, hquote, hbackslash]

theorem readDollar_eq (hd : beginsExpansion d = false) :
    readDollar d = (readQuoted d).map fun (setting, signs) => (setting, .literal '$' :: signs) := by
  have chars : "@\x7b([".toList = ['@', '\x7b', '(', '['] := rfl
  simp only [beginsExpansion, chars, Bool.or_eq_false_iff] at hd
  obtain ⟨⟨hstart, hspecial⟩, hother⟩ := hd
  have hother : d ≠ '@' ∧ d ≠ '\x7b' ∧ d ≠ '(' ∧ d ≠ '[' := by simpa using hother
  simp [readDollar, hstart, hspecial, hother]

/-- A dollar sign that begins no expansion is read as itself, and what follows as if it were not there. -/
theorem wordsFrom_dollar (hd : beginsExpansion d = false) (w : List Sign) :
    wordsFrom .dollar (some w) (d :: t) = wordsFrom .quoted (some (w ++ [.literal '$'])) (d :: t) := by
  rw [wordsFrom_cons rfl, wordsFrom_cons rfl, readIn, readIn, readDollar_eq hd]
  cases readQuoted d <;> simp

theorem isPlainInQuotes_cons :
    isPlainInQuotes (c :: t) = true ↔
      (c = '$' ∧ (∀ d ∈ t.head?, beginsExpansion d = false) ∨ isActiveInQuotes c = false) ∧ isPlainInQuotes t = true := by
  cases t <;> simp [isPlainInQuotes]

/-- A plain text is read as itself up to the quote that ends it. -/
theorem wordsFrom_plain (ht : isPlainInQuotes t = true) (w : List Sign) :
    wordsFrom .quoted (some w) (t ++ '"' :: rest) = wordsFrom .outside (some (w ++ literals t)) rest := by
  induction t generalizing w with
  | nil => simp [wordsFrom_cons, Setting.isOutside, readIn, readQuoted, literals]
  | cons c t ih =>
    obtain ⟨hc, ht⟩ := isPlainInQuotes_cons.mp ht
    have reads : wordsFrom .quoted (some w) (c :: t ++ '"' :: rest) =
        wordsFrom .quoted (some (w ++ [.literal c])) (t ++ '"' :: rest) := by
      obtain ⟨rfl, hhead⟩ | hc := hc
      · -- behind the dollar sign stands the next character, or the quote that ends the text
        obtain ⟨d, t', hd, heq⟩ : ∃ d t', beginsExpansion d = false ∧ t ++ '"' :: rest = d :: t' := by
          cases t with
          | nil => exact ⟨'"', rest, rfl, rfl⟩
          | cons d t => exact ⟨d, t ++ '"' :: rest, hhead d rfl, rfl⟩
        have dollar : readIn .quoted '$' = some (.dollar, []) := rfl
        rw [List.cons_append, wordsFrom_cons rfl, dollar, heq, ← wordsFrom_dollar hd]
        simp
      · have plain : readIn .quoted c = some (.quoted, [.literal c]) := readQuoted_eq hc
        rw [List.cons_append, wordsFrom_cons rfl, plain]
        rfl
    rw [reads, ih ht, literals, literals, List.map_cons, List.append_assoc, List.singleton_append]

end Plain

/-! ### Active characters -/

section Active
variable {c d : Char} {w : List Sign} {word : Option (List Sign)} {t rest : Text} {setting next : Setting}
  {signs : List Sign} {ws : List (List Sign)} {name : Text}

theorem wordsFrom_cons_eq_some (h : (setting.isOutside && isBlank c) = false)
    (hws : wordsFrom setting word (c :: t) = some ws) :
    ∃ next signs, readIn setting c = some (next, signs) ∧ wordsFrom next (some (word.getD [] ++ signs)) t = some ws := by
  rw [wordsFrom_cons h] at hws
  obtain ⟨⟨next, signs⟩, hread, hrest⟩ := Option.bind_eq_some_iff.mp hws
  exact ⟨next, signs, hread, hrest⟩

theorem wordsFrom_extends (h : wordsFrom setting (some w) t = some ws) : ∃ rest more, ws = (w ++ rest) :: more := by
  induction t generalizing setting w with
  | nil =>
    obtain ⟨-, h⟩ := Option.ite_none_right_eq_some.mp h
    cases h
    exact ⟨[], [], by simp⟩
  | cons c t ih =>
    by_cases hblank : (setting.isOutside && isBlank c) = true
    · rw [wordsFrom, if_pos hblank] at h
      obtain ⟨more, -, rfl⟩ := Option.map_eq_some_iff.mp h
      exact ⟨[], more, by simp⟩
    · obtain ⟨next, signs, -, hrest⟩ := wordsFrom_cons_eq_some (Bool.eq_false_iff.mpr hblank) h
      obtain ⟨rest, more, rfl⟩ := ih hrest
      exact ⟨signs ++ rest, more, by simp⟩

/-- Behind what is read so far the first word goes on with something that is no literal character. -/
def GoesOnWithValue (w : List Sign) (ws : List (List Sign)) : Prop :=
  ∃ sign rest more, (∀ c, sign ≠ .literal c) ∧ ws = (w ++ sign :: rest) :: more

theorem goesOnWithValue_of_extends {sign : Sign} (hsign : ∀ c, sign ≠ .literal c)
    (h : wordsFrom setting (some (w ++ sign :: signs)) t = some ws) : GoesOnWithValue w ws := by
  obtain ⟨rest, more, rfl⟩ := wordsFrom_extends h
  exact ⟨sign, signs ++ rest, more, hsign, by simp⟩

theorem wordsFrom_named (h : wordsFrom (.named name) (some w) t = some ws) : GoesOnWithValue w ws := by
  induction t generalizing name with
  | nil => cases h
  | cons c t ih =>
    obtain ⟨next, signs, hread, hrest⟩ := wordsFrom_cons_eq_some rfl h
    simp only [readIn, readNamed] at hread
    split at hread
    · cases hread
      exact ih (by simpa using hrest)
    · obtain ⟨_, -, heq⟩ := Option.map_eq_some_iff.mp hread
      cases heq
      exact goesOnWithValue_of_extends (by simp) hrest

theorem wordsFrom_braced (h : wordsFrom (.braced name) (some w) t = some ws) : GoesOnWithValue w ws := by
  induction t generalizing name with
  | nil => cases h
  | cons c t ih =>
    obtain ⟨next, signs, hread, hrest⟩ := wordsFrom_cons_eq_some rfl h
    simp only [readIn, readBraced] at hread
    split at hread
    · split at hread
      · cases hread
        exact goesOnWithValue_of_extends (by simp) hrest
      · cases hread
    · split at hread
      · cases hread
        exact ih (by simpa using hrest)
      · cases hread

/-- An expansion is not read as the characters that it is written with. -/
theorem wordsFrom_expansion (hd : beginsExpansion d = true) (h : wordsFrom .dollar (some w) (d :: t) = some ws) :
    GoesOnWithValue w ws := by
  obtain ⟨next, signs, hread, hrest⟩ := wordsFrom_cons_eq_some rfl h
  simp only [readIn, readDollar] at hread
  split at hread
  · cases hread
    exact goesOnWithValue_of_extends (by simp) hrest
  split at hread
  · cases hread
    exact wordsFrom_braced (by simpa using hrest)
  split at hread
  · cases hread
  split at hread
  · cases hread
    exact goesOnWithValue_of_extends (by simp) hrest
  split at hread
  · cases hread
    exact wordsFrom_named (by simpa using hrest)
  · next hat hbrace hparen hspecial hstart =>
    simp_all [beginsExpansion]

/-- Without a backslash no quote is literal. -/
theorem readIn_unescaped (hread : readIn setting d = some (next, signs)) (hd : d ≠ '\\')
    (hsetting : setting ≠ .escaped) (hc : c = '"' ∨ c = '`') : next ≠ .escaped ∧ .literal c ∉ signs := by
  have quoted : ∀ {next signs}, readQuoted d = some (next, signs) → next ≠ .escaped ∧ .literal c ∉ signs := by
    intro next signs hread
    unfold readQuoted at hread
    split at hread
    · cases hread
      simp
    split at hread
    · cases hread
      simp
    split at hread
    · cases hread
    · next hquote _ hbackquote =>
      cases hread
      obtain rfl | rfl := hc <;> simp [Ne.symm hquote, Ne.symm hbackquote]
  have behind : ∀ {sign next signs}, sign ≠ .literal c →
      (readQuoted d).map (fun (next, signs) => (next, sign :: signs)) = some (next, signs) →
        next ≠ .escaped ∧ .literal c ∉ signs := by
    intro sign next signs hsign h
    obtain ⟨_, hquoted, heq⟩ := Option.map_eq_some_iff.mp h
    cases heq
    obtain ⟨hnext, hsigns⟩ := quoted hquoted
    exact ⟨hnext, by simp [hsign.symm, hsigns]⟩
  cases setting with
  | outside =>
    simp only [readIn, readOutside] at hread
    split at hread
    · cases hread
      simp
    split at hread
    · next hinert =>
      cases hread
      have active : isInert c = false := by obtain rfl | rfl := hc <;> rfl
      have : c ≠ d := by
        rintro rfl
        rw [hinert] at active
        cases active
      simp [this]
    · cases hread
  | quoted => exact quoted hread
  | escaped => contradiction
  | dollar =>
    have dollar : Sign.literal '$' ≠ .literal c := by obtain rfl | rfl := hc <;> decide
    simp only [readIn, readDollar] at hread
    split at hread
    · cases hread
      simp
    split at hread
    · cases hread
      simp
    split at hread
    · cases hread
    split at hread
    · cases hread
      simp
    split at hread
    · cases hread
      simp
    · exact behind dollar hread
  | named name =>
    simp only [readIn, readNamed] at hread
    split at hread
    · cases hread
      simp
    · exact behind (by simp) hread
  | braced name =>
    simp only [readIn, readBraced] at hread
    split at hread
    · split at hread <;> cases hread
      simp
    · split at hread <;> cases hread
      simp

theorem literal_notMem_wordsFrom (h : wordsFrom setting word t = some ws) (ht : '\\' ∉ t)
    (hsetting : setting ≠ .escaped) (hc : c = '"' ∨ c = '`') (hword : .literal c ∉ word.getD []) :
    ∀ w ∈ ws, .literal c ∉ w := by
  induction t generalizing setting word ws with
  | nil =>
    obtain ⟨-, h⟩ := Option.ite_none_right_eq_some.mp h
    cases h
    cases word with
    | none => simp
    | some w => simpa using hword
  | cons d t ih =>
    obtain ⟨hd, ht⟩ := List.ne_and_not_mem_of_not_mem_cons ht
    by_cases hblank : (setting.isOutside && isBlank d) = true
    · rw [wordsFrom, if_pos hblank] at h
      obtain ⟨more, hmore, rfl⟩ := Option.map_eq_some_iff.mp h
      have hmore := ih hmore ht (by simp) List.not_mem_nil
      cases word with
      | none => simpa using hmore
      | some w => exact List.forall_mem_cons.mpr ⟨hword, hmore⟩
    · obtain ⟨next, signs, hread, hrest⟩ := wordsFrom_cons_eq_some (Bool.eq_false_iff.mpr hblank) h
      obtain ⟨hnext, hsigns⟩ := readIn_unescaped hread hd.symm hsetting hc
      exact ih hrest ht hnext (by simp [hword, hsigns])

theorem isPlainInQuotes_of_wordsFrom {more : List Sign} {others : List (List Sign)} (hquote : '"' ∉ t)
    (hbackquote : '`' ∉ t) (hbackslash : '\\' ∉ t)
    (h : wordsFrom .quoted (some w) (t ++ '"' :: rest) = some ((w ++ literals t ++ more) :: others)) :
    isPlainInQuotes t = true := by
  induction t generalizing w with
  | nil => rfl
  | cons c t ih =>
    obtain ⟨hcq, hquote⟩ := List.ne_and_not_mem_of_not_mem_cons hquote
    obtain ⟨hcb, hbackquote⟩ := List.ne_and_not_mem_of_not_mem_cons hbackquote
    obtain ⟨hcs, hbackslash⟩ := List.ne_and_not_mem_of_not_mem_cons hbackslash
    have goOn : wordsFrom .quoted (some (w ++ [.literal c])) (t ++ '"' :: rest) =
        some ((w ++ literals (c :: t) ++ more) :: others) → isPlainInQuotes t = true := fun h =>
      ih (w := w ++ [.literal c]) hquote hbackquote hbackslash (by simpa [literals] using h)
    by_cases hc : c = '$'
    · subst hc
      have dollar : readIn .quoted '$' = some (.dollar, []) := rfl
      rw [List.cons_append, wordsFrom_cons rfl, dollar, Option.bind_some] at h
      simp only [Option.getD_some, List.append_nil] at h
      cases t with
      | nil => rfl
      | cons d t =>
        cases hd : beginsExpansion d with
        | true =>
          -- the word would have to go on with the dollar sign itself
          obtain ⟨sign, signs, words, hsign, heq⟩ := wordsFrom_expansion hd h
          obtain ⟨heq, -⟩ := List.cons.inj heq
          rw [List.append_assoc] at heq
          exact absurd (List.cons.inj (List.append_cancel_left heq)).1.symm (hsign '$')
        | false =>
          rw [List.cons_append, wordsFrom_dollar hd] at h
          exact isPlainInQuotes_cons.mpr ⟨Or.inl ⟨rfl, by simpa using hd⟩, goOn h⟩
    · have plain : isActiveInQuotes c = false :=
        isActiveInQuotes_eq_false.mpr ⟨hc, hcb.symm, hcq.symm, hcs.symm⟩
      have reads : readIn .quoted c = some (.quoted, [.literal c]) := readQuoted_eq plain
      rw [List.cons_append, wordsFrom_cons rfl, reads, Option.bind_some] at h
      exact isPlainInQuotes_cons.mpr ⟨Or.inr plain, goOn h⟩

end Active
end ShellCompletion.Shell

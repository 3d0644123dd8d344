import ShellCompletion.Shell.Quoting

/-! How the shell reads a line. Single quotes make everything up to the next one literal, a backslash makes one
    character literal, and the pieces of a word are put together; blanks and operators end a word. Outside quotes
    no other character may mean anything: such a text is not read at all. What the quoting functions write is read
    back as what they were given. -/

namespace ShellCompletion.Shell

/-! ### Characters -/

/-- The characters that separate words. -/
def isBlank (c : Char) : Bool := " \t".toList.contains c

/-- The characters that end a word and are tokens themselves. -/
def isOperator (c : Char) : Bool := "|&;()<>\n".toList.contains c

/-- The characters that expand, match or comment where they are not quoted. -/
def isActive (c : Char) : Bool := "$`\"*?[]#~!\x7b\x7d^".toList.contains c

/-- The characters that stand for themselves outside quotes. -/
def isInert (c : Char) : Bool := !(isBlank c || isOperator c || isActive c || c == '\'' || c == '\\')

/-! ### Tokens -/

/-- A word of a line: what it says once its quotes are undone, and whether nothing of it was quoted. -/
structure Word where
  text : Text := []
  bare : Bool := true
deriving DecidableEq, Repr

/-- The word with one more character. -/
def Word.add (w : Word) (c : Char) (bare : Bool) : Word := ⟨w.text ++ [c], w.bare && bare⟩

/-- The words that are part of the language where a command or a pattern is expected, unless they are quoted. -/
def reservedWords : List Text :=
  ["case", "do", "done", "elif", "else", "esac", "fi", "for", "function", "if", "in", "select", "then", "time",
    "until", "while"].map (·.toList)

/-- Is a word part of the language? -/
def Word.isReserved (w : Word) : Bool := w.bare && reservedWords.contains w.text

/-- A part of a line: a word or a single operator. -/
inductive Token where
  | word (w : Word)
  | operator (c : Char)
deriving DecidableEq, Repr

/-- What the next character stands in. -/
inductive Quotes where
  | none
  | single
  | backslash

/-- The tokens of a text, the first of which continues `word` if it has begun. A quote has to be closed. -/
def tokensFrom (quotes : Quotes) (word : Option Word) : Text → Option (List Token)
  | [] =>
    match quotes with
    | .none => some (word.toList.map .word)
    | _ => none
  | c :: t =>
    match quotes with
    | .single =>
      if c = '\'' then tokensFrom .none word t else tokensFrom .single (some ((word.getD {}).add c false)) t
    | .backslash => if c = '\n' then none else tokensFrom .none (some ((word.getD {}).add c false)) t
    | .none =>
      if c = '\'' then tokensFrom .single (some { word.getD {} with bare := false }) t
      else if c = '\\' then tokensFrom .backslash word t
      else if isBlank c then (tokensFrom .none none t).map (word.toList.map .word ++ ·)
      else if isOperator c then (tokensFrom .none none t).map (word.toList.map .word ++ .operator c :: ·)
      else if isActive c then none
      else tokensFrom .none (some ((word.getD {}).add c true)) t

/-- The tokens of a line. -/
def tokens (line : Text) : Option (List Token) := tokensFrom .none none line

/-! ### Word lists and patterns -/

/-- The words of a word list, the first of which continues `word`: a space ends a word, a backslash makes a
    character literal, and no other character may mean anything. -/
def listWordsFrom (escaped : Bool) (word : Text) : Text → Option (List Text)
  | [] => if escaped then none else some (if word.isEmpty then [] else [word])
  | c :: t =>
    if escaped then listWordsFrom false (word ++ [c]) t
    else if c = '\\' then listWordsFrom true word t
    else if c = ' ' then (listWordsFrom false [] t).map ((if word.isEmpty then [] else [word]) ++ ·)
    else if isInert c then listWordsFrom false (word ++ [c]) t
    else none

/-- The one word that a text consists of. -/
def readWord (t : Text) : Option Word :=
  match tokens t with
  | some [.word w] => some w
  | _ => none

/-- The words of a word list that is written as one word. -/
def readWordList (t : Text) : Option (List Text) := (readWord t).bind fun w => listWordsFrom false [] w.text

/-- A name that stands bare, where a word that is part of the language would not be a name. -/
def readName (t : Text) : Option Text :=
  (readWord t).bind fun w => if w.isReserved || !w.bare then none else some w.text

/-- The alternatives of a `case` pattern up to its parenthesis, and the tokens after that. -/
def alternatives : List Token → Option (List Text × List Token)
  | .word w :: .operator c :: ts =>
    if w.isReserved then none
    else if c = ')' then some ([w.text], ts)
    else if c = '|' then (alternatives ts).map fun p => (w.text :: p.1, p.2)
    else none
  | _ => none

/-- The texts of a line that consists of words. -/
def readWords (line : Text) : Option (List Text) :=
  (tokens line).bind fun ts => ts.mapM fun
    | .word w => some w.text
    | .operator _ => none

/-! ### Inert characters -/

section Inert
variable {c : Char}

theorem isInert_iff :
    isInert c = true ↔ isBlank c = false ∧ isOperator c = false ∧ isActive c = false ∧ c ≠ '\'' ∧ c ≠ '\\' := by
  simp [isInert, and_assoc]

/-- A character that is safe in a bare word is one that stands for itself. -/
theorem isInert_of_isSafe (h : isSafe c = true) : isInert c = true := by
  have absent : ∀ l : Text, l.all (!isSafe ·) = true → c ∉ l := fun l hl hc => by
    have := List.all_eq_true.mp hl c hc
    rw [h] at this
    cases this
  rw [isInert_iff]
  refine ⟨?_, ?_, ?_, ?_, ?_⟩
  · simpa [isBlank] using absent " \t".toList rfl
  · simpa [isOperator] using absent "|&;()<>\n".toList rfl
  · simpa [isActive] using absent "$`\"*?[]#~!\x7b\x7d^".toList rfl
  · rintro rfl
    cases h
  · rintro rfl
    cases h

end Inert

/-- A text that is a name wherever it stands bare: no character is active, and no word of the language has an
    underscore. -/
structure IsName (t : Text) : Prop where
  inert : ∀ c ∈ t, isInert c = true
  underscore_mem : '_' ∈ t

theorem IsName.ne_nil {t : Text} (ht : IsName t) : t ≠ [] := List.ne_nil_of_mem ht.underscore_mem

theorem IsName.newline_notMem {t : Text} (ht : IsName t) : '\n' ∉ t := fun h =>
  absurd (ht.inert _ h) (by decide)

/-! ### Reading words -/

section Words
variable {c : Char} {w : Word} {word : Option Word} {t rest : Text}

theorem tokensFrom_quoted (t rest u : Text) :
    tokensFrom .single (some ⟨u, false⟩) (t.flatMap quoteChar ++ '\'' :: rest) =
      tokensFrom .none (some ⟨u ++ t, false⟩) rest := by
  -- `u` is the word so far; an apostrophe leaves the quotes, is read behind a backslash and enters them again.
  induction t generalizing u with
  | nil => simp [tokensFrom]
  | cons c t ih =>
    rw [List.flatMap_cons, List.append_assoc]
    by_cases hc : c = '\''
    · subst hc
      simp [quoteChar, tokensFrom, Word.add, ih]
    · simp [quoteChar, hc, tokensFrom, Word.add, ih]

/-- A quoted text says what was quoted, whatever that is. -/
theorem tokensFrom_singleQuoted (t rest : Text) :
    tokensFrom .none none (singleQuoted t ++ rest) = tokensFrom .none (some ⟨t, false⟩) rest := by
  have := tokensFrom_quoted t rest []
  simpa [singleQuoted, tokensFrom] using this

theorem tokensFrom_inert (hc : isInert c = true) :
    tokensFrom .none word (c :: rest) = tokensFrom .none (some ((word.getD {}).add c true)) rest := by
  obtain ⟨hblank, hoperator, hactive, hquote, hbackslash⟩ := isInert_iff.mp hc
  simp [tokensFrom, hblank, hoperator, hactive, hquote, hbackslash]

theorem tokensFrom_bare (ht : ∀ c ∈ t, isInert c = true) (u rest : Text) :
    tokensFrom .none (some ⟨u, true⟩) (t ++ rest) = tokensFrom .none (some ⟨u ++ t, true⟩) rest := by
  induction t generalizing u with
  | nil => simp
  | cons c t ih =>
    obtain ⟨hc, ht⟩ := List.forall_mem_cons.mp ht
    rw [List.cons_append, tokensFrom_inert hc]
    simp [Word.add, ih ht]

/-- A text of inert characters says itself. -/
theorem tokensFrom_plain (hne : t ≠ []) (ht : ∀ c ∈ t, isInert c = true) (rest : Text) :
    tokensFrom .none none (t ++ rest) = tokensFrom .none (some ⟨t, true⟩) rest := by
  cases t with
  | nil => exact absurd rfl hne
  | cons c t =>
    obtain ⟨hc, ht⟩ := List.forall_mem_cons.mp ht
    rw [List.cons_append, tokensFrom_inert hc]
    exact tokensFrom_bare ht [c] rest

theorem tokensFrom_nil : tokensFrom .none (some w) [] = some [.word w] := rfl

theorem ne_of_isOperator (hc : isOperator c = true) : isBlank c = false ∧ c ≠ '\'' ∧ c ≠ '\\' := by
  have other : "|&;()<>\n".toList.all (fun d => !isBlank d && d != '\'' && d != '\\') = true := rfl
  have := List.all_eq_true.mp other c (List.contains_iff_mem.mp hc)
  simpa [and_assoc] using this

theorem tokensFrom_operator (hc : isOperator c = true) :
    tokensFrom .none (some w) (c :: rest) = (tokens rest).map (.word w :: .operator c :: ·) := by
  obtain ⟨hblank, hquote, hbackslash⟩ := ne_of_isOperator hc
  simp [tokensFrom, hc, hblank, hquote, hbackslash, tokens]

theorem ne_of_isBlank (hc : isBlank c = true) : c ≠ '\'' ∧ c ≠ '\\' := by
  have other : " \t".toList.all (fun d => d != '\'' && d != '\\') = true := rfl
  have := List.all_eq_true.mp other c (List.contains_iff_mem.mp hc)
  simpa using this

theorem tokensFrom_blank (hc : isBlank c = true) :
    tokensFrom .none (some w) (c :: rest) = (tokens rest).map (.word w :: ·) := by
  obtain ⟨hquote, hbackslash⟩ := ne_of_isBlank hc
  simp [tokensFrom, hc, hquote, hbackslash, tokens]

theorem tokens_blank (hc : isBlank c = true) : tokens (c :: t) = tokens t := by
  obtain ⟨hquote, hbackslash⟩ := ne_of_isBlank hc
  have step : tokens (c :: t) = (tokens t).map ([] ++ ·) := by
    simp [tokens, tokensFrom, hc, hquote, hbackslash]
  rw [step]
  exact Option.map_id'

/-- Blanks before a word are nothing. -/
theorem tokens_indent {indent : Text} (hindent : ∀ c ∈ indent, isBlank c = true) (t : Text) :
    tokens (indent ++ t) = tokens t := by
  induction indent with
  | nil => rfl
  | cons c indent ih =>
    obtain ⟨hc, hindent⟩ := List.forall_mem_cons.mp hindent
    rw [List.cons_append, tokens_blank hc, ih hindent]

theorem readWord_singleQuoted (t : Text) : readWord (singleQuoted t) = some ⟨t, false⟩ := by
  have := tokensFrom_singleQuoted t []
  rw [List.append_nil, tokensFrom_nil] at this
  rw [readWord, tokens, this]

theorem readWord_plain (hne : t ≠ []) (ht : ∀ c ∈ t, isInert c = true) : readWord t = some ⟨t, true⟩ := by
  have := tokensFrom_plain hne ht []
  rw [List.append_nil, tokensFrom_nil] at this
  rw [readWord, tokens, this]

theorem not_isReserved_of_underscore (h : '_' ∈ w.text) : w.isReserved = false := by
  have free : ∀ t ∈ reservedWords, '_' ∉ t := by decide
  have : w.text ∉ reservedWords := fun hmem => free _ hmem h
  simp [Word.isReserved, this]

theorem readName_eq (ht : IsName t) : readName t = some t := by
  have reserved : (⟨t, true⟩ : Word).isReserved = false := not_isReserved_of_underscore ht.underscore_mem
  rw [readName, readWord_plain ht.ne_nil ht.inert, Option.bind_some, reserved]
  rfl

end Words

/-! ### What the quoting functions write -/

section Quoting
variable {words : List Text}

/-- What the shell reads for a text as a literal word. -/
def wordOf (t : Text) : Word := ⟨t, !t.isEmpty && t.all isSafe⟩

theorem word_eq_self {t : Text} (hne : t ≠ []) (ht : ∀ c ∈ t, isSafe c = true) : word t = t := by
  have hall : t.all isSafe = true := List.all_eq_true.mpr ht
  simp [word, hne, hall]

theorem tokensFrom_word (t rest : Text) :
    tokensFrom .none none (word t ++ rest) = tokensFrom .none (some (wordOf t)) rest := by
  unfold word wordOf
  by_cases ht : (!t.isEmpty && t.all isSafe) = true
  · obtain ⟨hne, hsafe⟩ := Bool.and_eq_true_iff.mp ht
    rw [if_pos ht, ht]
    exact tokensFrom_plain (by simpa using hne) (fun c hc => isInert_of_isSafe (List.all_eq_true.mp hsafe c hc)) rest
  · rw [if_neg ht, Bool.not_eq_true _ |>.mp ht]
    exact tokensFrom_singleQuoted t rest

/-- A line of literal words says these words. -/
theorem tokens_join_word : ∀ words : List Text,
    tokens (Text.join [' '] (words.map word)) = some (words.map fun t => .word (wordOf t))
  | [] => rfl
  | [t] => by
    have := tokensFrom_word t []
    simpa [Text.join, tokens, tokensFrom_nil] using this
  | t :: u :: words => by
    have ih := tokens_join_word (u :: words)
    simp only [List.map_cons, Text.join, List.append_assoc, List.singleton_append] at ih ⊢
    rw [tokens, tokensFrom_word, tokensFrom_blank rfl, ih]
    rfl

theorem readWords_join_word (words : List Text) : readWords (Text.join [' '] (words.map word)) = some words := by
  rw [readWords, tokens_join_word, Option.bind_some, List.mapM_map]
  exact (List.mapM_pure (m := Option)).trans (congrArg some (List.map_id words))

theorem casePattern_eq_cons (hwords : words ≠ []) : ∃ t, casePattern words = '\'' :: t := by
  match words with
  | [t] => exact ⟨_, rfl⟩
  | t :: u :: words => exact ⟨_, rfl⟩

/-- A `case` pattern says its alternatives. -/
theorem alternatives_casePattern (rest : Text) : ∀ {words : List Text}, words ≠ [] →
    (tokens (casePattern words ++ ')' :: rest)).bind alternatives = (tokens rest).map (words, ·)
  | [t], _ => by
    -- A quoted word is no word of the language, whatever it says.
    have bare : (⟨t, false⟩ : Word).isReserved = false := rfl
    rw [casePattern, List.map_singleton, Text.join, tokens, tokensFrom_singleQuoted, tokensFrom_operator rfl]
    cases tokens rest <;> simp [alternatives, bare]
  | t :: u :: words, _ => by
    have ih := alternatives_casePattern rest (List.cons_ne_nil u words)
    have bare : (⟨t, false⟩ : Word).isReserved = false := rfl
    simp only [casePattern, List.map_cons, Text.join, List.append_assoc, List.cons_append,
      List.nil_append] at ih ⊢
    rw [tokens, tokensFrom_singleQuoted, tokensFrom_operator rfl, Option.bind_map]
    have step : alternatives ∘ (Token.word ⟨t, false⟩ :: Token.operator '|' :: ·) =
        Option.map (fun p => (t :: p.1, p.2)) ∘ alternatives := by
      funext ts
      simp [alternatives, bare]
    rw [step, ← Option.map_bind, ih, Option.map_map]
    rfl

/-! ### Word lists -/

theorem listWordsFrom_listChar (c : Char) (u rest : Text) :
    listWordsFrom false u (listChar c ++ rest) = listWordsFrom false (u ++ [c]) rest := by
  unfold listChar
  -- A safe character stands for itself in a list, too: it is neither the space nor the backslash.
  split
  · next hc =>
    have space : c ≠ ' ' := fun h => absurd (h ▸ hc) (by decide)
    obtain ⟨-, -, -, -, backslash⟩ := isInert_iff.mp (isInert_of_isSafe hc)
    simp [listWordsFrom, space, backslash, isInert_of_isSafe hc]
  · simp [listWordsFrom]

theorem listWordsFrom_listWord (t u rest : Text) :
    listWordsFrom false u (listWord t ++ rest) = listWordsFrom false (u ++ t) rest := by
  induction t generalizing u with
  | nil => simp [listWord]
  | cons c t ih =>
    rw [listWord, List.flatMap_cons, List.append_assoc, listWordsFrom_listChar]
    have := ih (u ++ [c])
    rwa [List.append_assoc] at this

/-- A list of words with spaces between them says these words. -/
theorem listWordsFrom_join : ∀ {words : List Text}, (∀ t ∈ words, t ≠ []) →
    listWordsFrom false [] (Text.join [' '] (words.map listWord)) = some words
  | [], _ => rfl
  | [t], hwords => by
    have ht := hwords t List.mem_cons_self
    have := listWordsFrom_listWord t [] []
    simpa [Text.join, listWordsFrom, ht] using this
  | t :: u :: words, hwords => by
    obtain ⟨ht, hrest⟩ := List.forall_mem_cons.mp hwords
    have ih := listWordsFrom_join hrest
    simp only [List.map_cons, Text.join, List.append_assoc, List.singleton_append] at ih ⊢
    rw [listWordsFrom_listWord, List.nil_append]
    simp [listWordsFrom, ih, ht]

/-- A quoted word list says its words. -/
theorem readWordList_wordList (hwords : ∀ t ∈ words, t ≠ []) : readWordList (wordList words) = some words := by
  rw [readWordList, wordList, readWord_singleQuoted]
  exact listWordsFrom_join hwords

end Quoting

end ShellCompletion.Shell

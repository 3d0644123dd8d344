import ShellCompletion.Proofs.Acceptance
import ShellCompletion.Proofs.Shell.DoubleQuotes

/-! What becomes of quoted texts and word lists in the hands of the shell. Each is read back as what it was made of, and
    word lists that are put together with spaces between them, whether they hold any words or not, are read as one list
    of all their words. -/

namespace ShellCompletion

namespace Shell

/-! ### Lists without their quotes -/

/-- A word list as it is before it is quoted. -/
def bareList (words : List Text) : Text := Text.join [' '] (words.map listWord)

/-- Does everything but safe characters and the spaces between words stand behind a backslash? -/
def escapesUnsafe : Text → Bool
  | [] => true
  | '\\' :: _ :: t => escapesUnsafe t
  | c :: t => (isSafe c || c = ' ') && escapesUnsafe t

section Lists
variable {c : Char} {t rest : Text} {words : List Text} {lists : List (List Text)}

theorem readWord_wordList (words : List Text) : readWord (wordList words) = some ⟨bareList words, false⟩ :=
  readWord_singleQuoted _

theorem escapesUnsafe_cons (hc : isSafe c = true ∨ c = ' ') : escapesUnsafe (c :: t) = escapesUnsafe t := by
  have backslash : c ≠ '\\' := by
    rintro rfl
    rcases hc with hsafe | hspace
    · cases hsafe
    · cases hspace
  rw [escapesUnsafe.eq_def]
  split
  · next h => cases h
  · next h => exact absurd (List.cons.inj h).1 backslash
  · next h =>
    obtain ⟨rfl, rfl⟩ := List.cons.inj h
    have plain : (isSafe c || decide (c = ' ')) = true := by simpa using hc
    rw [plain, Bool.true_and]

theorem escapesUnsafe_listWord (t rest : Text) : escapesUnsafe (listWord t ++ rest) = escapesUnsafe rest := by
  induction t with
  | nil => rfl
  | cons c t ih =>
    rw [listWord, List.flatMap_cons, List.append_assoc, ← listWord]
    by_cases hc : isSafe c = true
    · rw [listChar, if_pos hc, List.singleton_append, escapesUnsafe_cons (Or.inl hc), ih]
    · rw [listChar, if_neg hc]
      exact ih

theorem escapesUnsafe_bareList : ∀ words : List Text, escapesUnsafe (bareList words) = true
  | [] => rfl
  | [t] => by
    have ht := escapesUnsafe_listWord t []
    rw [List.append_nil] at ht
    exact ht
  | t :: u :: words => by
    have ih := escapesUnsafe_bareList (u :: words)
    rw [bareList, List.map_cons, List.map_cons, Text.join, List.append_assoc, escapesUnsafe_listWord,
      List.singleton_append, escapesUnsafe_cons (Or.inr rfl), ← List.map_cons]
    exact ih

/-! ### Lists side by side -/

theorem listWordsFrom_space (ht : t ≠ []) :
    listWordsFrom false t (' ' :: rest) = (listWordsFrom false [] rest).map (t :: ·) := by
  simp [listWordsFrom, ht]

/-- What follows a list behind a space is read as if it stood alone; behind no words the space is nothing. -/
theorem listWordsFrom_bareList (rest : Text) : ∀ {words : List Text}, (∀ t ∈ words, t ≠ []) →
    listWordsFrom false [] (bareList words ++ ' ' :: rest) = (listWordsFrom false [] rest).map (words ++ ·)
  | [], _ => by simp [bareList, Text.join, listWordsFrom]
  | [t], hwords => by
    have ht := hwords t List.mem_cons_self
    rw [bareList, List.map_singleton, Text.join, listWordsFrom_listWord, List.nil_append, listWordsFrom_space ht]
    rfl
  | t :: u :: words, hwords => by
    obtain ⟨ht, hrest⟩ := List.forall_mem_cons.mp hwords
    have ih := listWordsFrom_bareList rest hrest
    rw [bareList, List.map_cons, List.map_cons, Text.join, List.append_assoc, List.append_assoc, listWordsFrom_listWord,
      List.nil_append, List.singleton_append, listWordsFrom_space ht, ← List.map_cons]
    show (listWordsFrom false [] (bareList (u :: words) ++ ' ' :: rest)).map (t :: ·) = _
    rw [ih, Option.map_map]
    rfl

theorem listWordsFrom_join_bareList : ∀ {lists : List (List Text)}, (∀ words ∈ lists, ∀ t ∈ words, t ≠ []) →
    listWordsFrom false [] (Text.join [' '] (lists.map bareList)) = some lists.flatten
  | [], _ => rfl
  | [words], hlists => by
    have hwords := hlists words List.mem_cons_self
    rw [List.flatten_singleton]
    exact listWordsFrom_join hwords
  | words :: more :: lists, hlists => by
    obtain ⟨hwords, hrest⟩ := List.forall_mem_cons.mp hlists
    have ih := listWordsFrom_join_bareList hrest
    rw [List.map_cons, List.map_cons, Text.join, List.append_assoc, List.singleton_append,
      listWordsFrom_bareList _ hwords, ← List.map_cons, ih]
    rfl

end Lists

/-! ### Expansion -/

/-- What a sign in quotes says where parameters have values. The arguments of a command are no text. -/
def Sign.text? (value? : Text → Option Text) : Sign → Option Text
  | .literal c => some [c]
  | .value parameter => value? parameter
  | .arguments => none

/-- The text that a line consists of if it is one word in double quotes. -/
def expandWord (value? : Text → Option Text) (line : Text) : Option Text :=
  match readSigns line with
  | some [signs] => (signs.mapM (Sign.text? value?)).map List.flatten
  | _ => none

end Shell

/-! ### The list that a function offers -/

namespace CompletionFunction

/-- What a function offers, as its source has it in double quotes. -/
def offeredList : Text := "\"$\x7bFLAG_OPTS\x7d $\x7bARG_OPTS\x7d $\x7bCOMMANDS\x7d\"".toList

/-- What the first line that sets a local variable sets it to. -/
def localValue? (f : CompletionFunction) (name : Text) : Option Text :=
  f.lines.findSome? fun line =>
    (("  local ".toList ++ name ++ ['=']).isPrefixOf? line).bind fun value => (Shell.readWord value).map (·.text)

/-- The words that a function offers, by the list in its source and the variables that the source sets. -/
def offeredWords? (f : CompletionFunction) : Option (List Text) :=
  (Shell.expandWord f.localValue? offeredList).bind (Shell.listWordsFrom false [])

theorem offeredList_mem_lines (f : CompletionFunction) :
    ∃ before after, before ++ offeredList ++ after ∈ f.lines :=
  ⟨"  mapfile -t COMPREPLY < <(compgen -W ".toList, " -- \"$\x7bCURR_WORD\x7d\")".toList,
    List.mem_append_right _ (List.mem_cons_of_mem _ List.mem_cons_self)⟩

theorem localValue?_of_line {f : CompletionFunction} {name : Text} {words : List Text} (i : Nat)
    (hline : f.lines[i]? = some ("  local ".toList ++ name ++ ['='] ++ Shell.wordList words))
    (hbefore : (f.lines.take i).all (fun line =>
      (("  local ".toList ++ name ++ ['=']).isPrefixOf? line).isNone) = true) :
    f.localValue? name = some (Shell.bareList words) := by
  have earlier : (f.lines.take i).findSome? (fun line => (("  local ".toList ++ name ++ ['=']).isPrefixOf? line).bind
      fun value => (Shell.readWord value).map (·.text)) = none := by
    rw [List.findSome?_eq_none_iff]
    intro line hmem
    have hother := List.all_eq_true.mp hbefore line hmem
    rw [Option.isNone_iff_eq_none.mp hother, Option.bind_none]
  have value : ("  local ".toList ++ name ++ ['=']).isPrefixOf?
      ("  local ".toList ++ name ++ ['='] ++ Shell.wordList words) = some (Shell.wordList words) := by simp
  obtain ⟨hi, heq⟩ := List.getElem?_eq_some_iff.mp hline
  rw [localValue?, ← List.take_append_drop i f.lines, List.findSome?_append, earlier, Option.none_or,
    List.drop_eq_getElem_cons hi, heq, List.findSome?_cons, value, Option.bind_some, Shell.readWord_wordList,
    Option.map_some]

theorem localValue?_eq (f : CompletionFunction) :
    f.localValue? "FLAG_OPTS".toList = some (Shell.bareList f.options.flags) ∧
      f.localValue? "ARG_OPTS".toList = some (Shell.bareList f.options.arguments) ∧
      f.localValue? "COMMANDS".toList = some (Shell.bareList f.subcommandNames) := by
  -- a description is one more line before the assignments
  cases hdescription : f.description with
  | none =>
    refine ⟨localValue?_of_line 7 ?_ ?_, localValue?_of_line 8 ?_ ?_, localValue?_of_line 6 ?_ ?_⟩ <;>
      rw [lines, hdescription] <;> rfl
  | some description =>
    refine ⟨localValue?_of_line 8 ?_ ?_, localValue?_of_line 9 ?_ ?_, localValue?_of_line 7 ?_ ?_⟩ <;>
      rw [lines, hdescription] <;> rfl

theorem expandWord_offeredList (f : CompletionFunction) :
    Shell.expandWord f.localValue? offeredList =
      some (Text.join [' '] ([f.options.flags, f.options.arguments, f.subcommandNames].map Shell.bareList)) := by
  obtain ⟨hflags, harguments, hcommands⟩ := localValue?_eq f
  have signs : Shell.readSigns offeredList = some [[.value "FLAG_OPTS".toList, .literal ' ', .value "ARG_OPTS".toList,
      .literal ' ', .value "COMMANDS".toList]] := rfl
  rw [Shell.expandWord, signs]
  simp only [List.mapM_cons, List.mapM_nil, Shell.Sign.text?, hflags, harguments, hcommands, Option.bind_eq_bind,
    Option.bind_some, Option.pure_def, Option.map_some]
  simp [Text.join]

theorem offeredWords?_eq (f : CompletionFunction) (hwords : ∀ t ∈ f.candidates, t ≠ []) :
    f.offeredWords? = some f.candidates := by
  obtain ⟨hoptions, hcommands⟩ := List.forall_mem_append.mp hwords
  obtain ⟨hflags, harguments⟩ := List.forall_mem_append.mp hoptions
  rw [offeredWords?, expandWord_offeredList, Option.bind_some, Shell.listWordsFrom_join_bareList]
  · simp [candidates]
  · simp only [List.forall_mem_cons]
    exact ⟨hflags, harguments, hcommands, List.forall_mem_nil _⟩

end CompletionFunction

namespace Shell

/-! ### Quoted and read -/

/-- Whatever a text holds, in single quotes and as a word it is read as one word that says this text, and a pattern is
    read as its alternatives. A list of words is read back from its quotes, where nothing but safe characters and the
    spaces between words stands without a backslash; lists side by side are read as one, and so are the three lists that
    a completion function offers. -/
theorem reading_undoes_quoting :
    (∀ t, readWord (singleQuoted t) = some ⟨t, false⟩ ∧ ∃ bare, readWord (word t) = some ⟨t, bare⟩) ∧
      (∀ words, words ≠ [] → (tokens (casePattern words ++ [')'])).bind alternatives = some (words, [])) ∧
      (∀ words, (∀ t ∈ words, IsWord t) → ∃ list, readWord (wordList words) = some ⟨list, false⟩ ∧
        listWordsFrom false [] list = some words ∧ escapesUnsafe list = true) ∧
      (∀ lists, (∀ words ∈ lists, ∀ t ∈ words, IsWord t) →
        ∃ bare, List.Forall₂ (fun words list => readWord (wordList words) = some ⟨list, false⟩) lists bare ∧
          listWordsFrom false [] (Text.join [' '] bare) = some lists.flatten) ∧
      ∀ f : CompletionFunction, (∀ t ∈ f.candidates, IsWord t) →
        (∃ before after, before ++ CompletionFunction.offeredList ++ after ∈ f.lines) ∧
          f.offeredWords? = some f.candidates := by
  refine ⟨fun t => ⟨readWord_singleQuoted t, ?_⟩, fun words hwords => ?_, fun words hwords => ?_,
    fun lists hlists => ?_, fun f hf => ⟨f.offeredList_mem_lines, f.offeredWords?_eq fun t ht => (hf t ht).ne_nil⟩⟩
  · have htokens := tokensFrom_word t []
    rw [List.append_nil, tokensFrom_nil] at htokens
    refine ⟨(wordOf t).bare, ?_⟩
    rw [readWord, tokens, htokens]
    rfl
  · rw [alternatives_casePattern [] hwords]
    rfl
  · have hne : ∀ t ∈ words, t ≠ [] := fun t ht => (hwords t ht).ne_nil
    exact ⟨_, readWord_wordList words, listWordsFrom_join hne, escapesUnsafe_bareList words⟩
  · have hne : ∀ words ∈ lists, ∀ t ∈ words, t ≠ [] := fun words hmem t ht => (hlists words hmem t ht).ne_nil
    refine ⟨lists.map bareList, ?_, listWordsFrom_join_bareList hne⟩
    rw [List.forall₂_map_right_iff, List.forall₂_same]
    exact fun words _ => readWord_wordList words

/-- A function without flags, one of whose words is quoted twice. -/
def flagless : CompletionFunction where
  identifier := "_flagless".toList
  path := ["flagless".toList]
  description := some "it's $HOME".toList
  options := ⟨[], ["-m".toList, "it's".toList], [⟨["-m".toList, "it's".toList], .files⟩]⟩
  subcommands := [⟨"$x".toList, "_flagless_x".toList⟩]

/-- The list that the function offers begins with a space that is no word. -/
theorem reading_undoes_quoting_flagless :
    (tokens "'esac'|'a|b')".toList).bind alternatives = some (["esac".toList, "a|b".toList], []) ∧
      (∃ list, readWord "'it\\'\\''s \\$x'".toList = some ⟨list, false⟩ ∧
        listWordsFrom false [] list = some ["it's".toList, "$x".toList]) ∧
      flagless.offeredWords? = some ["-m".toList, "it's".toList, "$x".toList] := by
  obtain ⟨-, patterns, lists, -, functions⟩ := reading_undoes_quoting
  have words : ∀ t ∈ ["-m".toList, "it's".toList, "$x".toList], IsWord t := by
    simp only [List.forall_mem_cons]
    exact ⟨⟨by decide, rfl⟩, ⟨by decide, rfl⟩, ⟨by decide, rfl⟩, List.forall_mem_nil _⟩
  obtain ⟨list, hquotes, hlist, -⟩ := lists _ fun t ht => words t (List.mem_cons_of_mem _ ht)
  exact ⟨patterns ["esac".toList, "a|b".toList] (List.cons_ne_nil _ _), ⟨list, hquotes, hlist⟩,
    (functions flagless words).2⟩

end Shell
end ShellCompletion

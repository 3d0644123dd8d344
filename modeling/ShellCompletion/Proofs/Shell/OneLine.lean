import ShellCompletion.Proofs.Acceptance
import ShellCompletion.Proofs.Identifier
import ShellCompletion.Proofs.Shell.Reading
import ShellCompletion.Proofs.Text.Lines

/-! What is written for the words and texts of a model stays on its line: a word has no space, a comment no control
    character, a name nothing but letters, digits and underscores behind its stem; quoting adds no line feed. -/

namespace ShellCompletion

theorem newline_notMem_of_hasSpace {t : Text} (ht : t.hasSpace = false) : '\n' ∉ t := by
  intro h
  have : t.hasSpace = true := List.any_eq_true.mpr ⟨'\n', h, rfl⟩
  rw [ht] at this
  cases this

theorem IsWord.newline_notMem {t : Text} (ht : IsWord t) : '\n' ∉ t := newline_notMem_of_hasSpace ht.hasSpace

theorem newline_notMem_of_isCommandWord {t : Text} (ht : Script.isCommandWord t = true) : '\n' ∉ t := by
  unfold Script.isCommandWord at ht
  exact newline_notMem_of_hasSpace (by simpa using (Bool.and_eq_true_iff.mp ht).2)

namespace Shell
variable {t : Text} {words : List Text}

theorem newline_notMem_comment (t : Text) : '\n' ∉ comment t := by
  intro h
  obtain ⟨c, -, hc⟩ := List.mem_map.mp h
  split at hc
  · cases hc
  · next hcontrol =>
    subst hc
    exact hcontrol rfl

theorem newline_notMem_singleQuoted (ht : '\n' ∉ t) : '\n' ∉ singleQuoted t := by
  have char : ∀ c ∈ t, '\n' ∉ quoteChar c := fun c hc => by
    have hne : '\n' ≠ c := fun h => ht (h ▸ hc)
    unfold quoteChar
    split <;> simp [hne]
  simpa [singleQuoted] using char

theorem newline_notMem_word (ht : '\n' ∉ t) : '\n' ∉ word t := by
  unfold word
  split
  · exact ht
  · exact newline_notMem_singleQuoted ht

theorem newline_notMem_casePattern (hwords : ∀ t ∈ words, '\n' ∉ t) : '\n' ∉ casePattern words := by
  refine Text.newline_notMem_join (by decide) fun l hl => ?_
  obtain ⟨t, ht, rfl⟩ := List.mem_map.mp hl
  exact newline_notMem_singleQuoted (hwords t ht)

theorem newline_notMem_wordList (hwords : ∀ t ∈ words, '\n' ∉ t) : '\n' ∉ wordList words := by
  refine newline_notMem_singleQuoted (Text.newline_notMem_join (by decide) fun l hl => ?_)
  obtain ⟨t, ht, rfl⟩ := List.mem_map.mp hl
  have char : ∀ c ∈ t, '\n' ∉ listChar c := fun c hc => by
    have hne : '\n' ≠ c := fun h => hwords t ht (h ▸ hc)
    unfold listChar
    split <;> simp [hne]
  simpa [listWord] using char

namespace Identifier

/-- A name needs no quotes. -/
theorem isSafe_of_mem_ofPath {path : List Text} {c : Char} (hc : c ∈ ofPath path) : isSafe c = true := by
  rcases isNameChar_of_mem_ofPath hc with halnum | rfl
  · simp [isSafe, halnum]
  · decide

end Identifier
end Shell

/-! ### Names of functions -/

namespace CompletionFunction
variable {stem : Text} {path : List Text}

theorem isName_identifierOf (hstem : ∀ c ∈ stem, Shell.isInert c = true) (hpath : path ≠ []) :
    Shell.IsName (identifierOf stem path) where
  inert := by
    intro c hc
    rcases List.mem_append.mp hc with hc | hc
    · exact hstem c hc
    · exact Shell.isInert_of_isSafe (Shell.Identifier.isSafe_of_mem_ofPath hc)
  underscore_mem := by
    obtain ⟨segment, path, rfl⟩ := List.exists_cons_of_ne_nil hpath
    simp [identifierOf, Shell.Identifier.ofPath, Shell.Identifier.framed]

end CompletionFunction
end ShellCompletion

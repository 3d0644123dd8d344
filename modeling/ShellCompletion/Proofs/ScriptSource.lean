import ShellCompletion.Proofs.EntrySource
import ShellCompletion.Proofs.FunctionSource

/-! The lines of a whole script. No text of a model ends a line early, so the lines of the script are those that were
    written: the heading, each function, the entry point and the registration, whose last line is a line of words. -/

namespace ShellCompletion

namespace EntryFunction
variable {e : EntryFunction}

theorem newline_notMem_enumeration : ∀ {items : List Text}, (∀ t ∈ items, '\n' ∉ t) → '\n' ∉ enumeration items
  | [], _ => List.not_mem_nil
  | [a], h => h a List.mem_cons_self
  | [a, b], h => by
    have ha := h a (by simp)
    have hb := h b (by simp)
    simp [enumeration, ha, hb]
  | a :: b :: c :: items, h => by
    have front : '\n' ∉ Text.join ", ".toList (a :: b :: c :: items).dropLast :=
      Text.newline_notMem_join (by decide) fun t ht => h t (List.dropLast_subset _ ht)
    have back : '\n' ∉ (c :: items).getLast (List.cons_ne_nil c items) :=
      h _ (List.mem_cons_of_mem _ (List.mem_cons_of_mem _ (List.getLast_mem _)))
    unfold enumeration
    simp only [List.mem_append, not_or]
    exact ⟨⟨front, by decide⟩, back⟩

theorem newline_notMem_registrationLines (hidentifier : Shell.IsName e.identifier)
    (haliases : ∀ a ∈ e.aliases, '\n' ∉ a) : ∀ l ∈ e.registrationLines, '\n' ∉ l := by
  have comments : '\n' ∉ enumeration (e.aliases.map fun a => "`".toList ++ Shell.comment a ++ "`".toList) := by
    refine newline_notMem_enumeration fun t ht => ?_
    obtain ⟨a, -, rfl⟩ := List.mem_map.mp ht
    simp [Shell.newline_notMem_comment a]
  have words : '\n' ∉ Text.join [' '] (e.aliases.map Shell.word) := by
    refine Text.newline_notMem_join (by decide) fun t ht => ?_
    obtain ⟨a, ha, rfl⟩ := List.mem_map.mp ht
    exact Shell.newline_notMem_word (haliases a ha)
  have plural : '\n' ∉ (if e.aliases.length == 1 then " command.".toList else " commands.".toList) := by
    split <;> decide
  unfold registrationLines
  simp only [List.forall_mem_cons, List.not_mem_nil, false_implies, implies_true, and_true, List.mem_append, not_or]
  exact ⟨by decide, ⟨⟨by decide, comments⟩, plural⟩, ⟨⟨by decide, hidentifier.newline_notMem⟩, by decide⟩,
    by decide, by decide, ⟨⟨⟨by decide, hidentifier.newline_notMem⟩, by decide⟩, words⟩⟩

/-- The last line registers the entry point for the aliases, and is a line of words. -/
theorem getLast?_registrationLines (hidentifier : ∀ c ∈ e.identifier, Shell.isSafe c = true)
    (hname : e.identifier ≠ []) (haliases : e.aliases ≠ []) :
    e.registrationLines.getLast? = some (Text.join [' ']
      ((["complete".toList, "-F".toList, e.identifier, "-o".toList, "default".toList] ++ e.aliases).map
        Shell.word)) := by
  have fixed : ∀ t ∈ ["complete".toList, "-F".toList, "-o".toList, "default".toList], Shell.word t = t := by decide
  have name : Shell.word e.identifier = e.identifier := Shell.word_eq_self hname hidentifier
  have words : e.aliases.map Shell.word ≠ [] := by simpa using haliases
  have front : "complete -F ".toList = "complete".toList ++ ([' '] ++ ("-F".toList ++ [' '])) := rfl
  have back : " -o default ".toList = [' '] ++ ("-o".toList ++ ([' '] ++ ("default".toList ++ [' ']))) := rfl
  have line : e.registrationLines.getLast? =
      some ("complete -F ".toList ++ e.identifier ++ " -o default ".toList ++
        Text.join [' '] (e.aliases.map Shell.word)) := rfl
  rw [List.forall_mem_cons, List.forall_mem_cons, List.forall_mem_cons, List.forall_mem_singleton] at fixed
  obtain ⟨h₁, h₂, h₃, h₄⟩ := fixed
  rw [line, front, back, List.map_append, List.map_cons, List.map_cons, List.map_cons, List.map_cons,
    List.map_singleton, h₁, h₂, h₃, h₄, name]
  simp only [List.cons_append, List.nil_append, Text.join_cons [' '] (List.cons_ne_nil _ _), Text.join_cons [' '] words,
    List.append_assoc]

end EntryFunction

namespace Script
variable {aliases : List Text} {model : Command} {banner script : Text} {functions : List CompletionFunction}
  {entry : EntryFunction}

theorem newline_notMem_headerLines (banner command : Text) : ∀ l ∈ headerLines banner command, '\n' ∉ l := by
  have hcommand := Shell.newline_notMem_comment command
  have hbanner := Shell.newline_notMem_comment banner
  simp [headerLines, hcommand, hbanner]

theorem legible_of_generatedFrom (generated : GeneratedFrom aliases model banner script functions entry) :
    (∀ f ∈ functions, f.Legible) ∧ entry.Legible := by
  obtain ⟨-, hcommands, -, rfl, -⟩ := generatedFrom_iff.mp generated
  exact ⟨CompletionFunction.legible_of_mem (List.all_eq_true.mp rfl) generated.functions_eq,
    EntryFunction.legible_entryOf hcommands⟩

/-- The lines of a generated script are those that were written. -/
theorem lines_script (generated : GeneratedFrom aliases model banner script functions entry) :
    Text.lines script = lines banner model.name functions entry := by
  obtain ⟨hfunctions, hentry⟩ := legible_of_generatedFrom generated
  obtain ⟨⟨-, hwords⟩, -, -, hentry_eq, hscript⟩ := generatedFrom_iff.mp generated
  have haliases : ∀ a ∈ entry.aliases, '\n' ∉ a := by
    intro a ha
    rw [hentry_eq] at ha
    exact newline_notMem_of_isCommandWord (hwords a (List.mem_eraseDups.mp ha))
  rw [hscript, assemble]
  refine Text.lines_unlines ?_
  unfold lines
  simp only [List.forall_mem_append, List.forall_mem_cons, List.forall_mem_flatMap]
  refine ⟨⟨⟨newline_notMem_headerLines _ _, fun f hf => ⟨List.not_mem_nil, ?_⟩⟩, List.not_mem_nil, ?_⟩,
    List.not_mem_nil, ?_⟩
  · exact CompletionFunction.newline_notMem_lines (hfunctions f hf)
  · exact EntryFunction.newline_notMem_lines hentry
  · exact EntryFunction.newline_notMem_registrationLines hentry.identifier haliases

/-- The last line of a generated script registers the entry point for the distinct aliases. -/
theorem getLast?_lines_script (generated : GeneratedFrom aliases model banner script functions entry) :
    (Text.lines script).getLast? = some (Text.join [' ']
      ((["complete".toList, "-F".toList, entry.identifier, "-o".toList, "default".toList] ++ aliases.eraseDups).map
        Shell.word)) := by
  obtain ⟨⟨hne, -⟩, -, -, hentry, -⟩ := generatedFrom_iff.mp generated
  have safe : ∀ c ∈ entry.identifier, Shell.isSafe c = true := by
    rw [hentry]
    intro c hc
    rcases List.mem_append.mp hc with hc | hc
    · exact List.all_eq_true.mp (show EntryFunction.stem.all Shell.isSafe = true from rfl) c hc
    · exact Shell.Identifier.isSafe_of_mem_ofPath hc
  have haliases : entry.aliases = aliases.eraseDups := by rw [hentry, entryOf]
  have aliases_ne_nil : entry.aliases ≠ [] := by
    obtain ⟨a, aliases, rfl⟩ := List.exists_cons_of_ne_nil hne
    rw [haliases, List.eraseDups_cons]
    exact List.cons_ne_nil _ _
  have last := EntryFunction.getLast?_registrationLines safe
    (legible_of_generatedFrom generated).2.identifier.ne_nil aliases_ne_nil
  rw [haliases] at last
  rw [lines_script generated, lines, List.getLast?_append, List.getLast?_cons, last]
  rfl

/-- The entry point of a generated script says what its tables say, and the last line of the script registers it for
    the aliases, each of them once, in the order of their first occurrences. -/
theorem entry_reads_back (accepted : (generate aliases model banner).result = .ok script) :
    ∃ functions entry, GeneratedFrom aliases model banner script functions entry ∧
      EntryFunction.read entry.source = some ⟨entry.identifier, entry.root, entry.transitions⟩ ∧
      (Text.lines script).getLast?.bind Shell.readWords =
        some (["complete".toList, "-F".toList, entry.identifier, "-o".toList, "default".toList] ++
          aliases.eraseDups) := by
  obtain ⟨functions, entry, generated⟩ := generate_eq_ok_iff_generatedFrom.mp accepted
  obtain ⟨-, hentry⟩ := legible_of_generatedFrom generated
  refine ⟨functions, entry, generated, EntryFunction.read_source_of_legible hentry, ?_⟩
  rw [getLast?_lines_script generated, Option.bind_some, Shell.readWords_join_word]

/-- The entry point of the sample is read back with `it's` and `esac` as its words; one alias was given twice. -/
theorem entry_reads_back_sample :
    ∃ script functions entry, (generate sampleAliases sample []).result = .ok script ∧
      GeneratedFrom sampleAliases sample [] script functions entry ∧
      EntryFunction.read entry.source = some {
        identifier := "_complete_4_demo".toList
        root := "_tabsmith_4_demo".toList
        transitions := [
          ⟨"_tabsmith_4_demo".toList,
            [⟨"it's".toList, "_tabsmith_4_demo_7_it_27_s".toList⟩,
              ⟨"esac".toList, "_tabsmith_4_demo_4_esac".toList⟩]⟩,
          ⟨"_tabsmith_4_demo_7_it_27_s".toList,
            [⟨"it's".toList, "_tabsmith_4_demo_7_it_27_s_7_it_27_s".toList⟩]⟩] } ∧
      (Text.lines script).getLast?.bind Shell.readWords =
        some ["complete".toList, "-F".toList, "_complete_4_demo".toList, "-o".toList, "default".toList,
          "demo".toList, "x*".toList] := by
  obtain ⟨script, accepted⟩ := sample_accepted
  obtain ⟨functions, entry, generated, read, words⟩ := entry_reads_back accepted
  obtain ⟨-, -, -, rfl, -⟩ := generatedFrom_iff.mp generated
  exact ⟨script, functions, _, accepted, generated, read, words⟩

end Script
end ShellCompletion

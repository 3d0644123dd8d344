import ShellCompletion.Proofs.Dispatch
import ShellCompletion.Proofs.ScriptSource

/-! Which shell functions a script defines: one for each command and the entry point, under names that are all
    different. A name is determined by its stem and its path, and the paths of two models have different roots if the
    models have different names, so that their scripts can be loaded side by side. -/

namespace ShellCompletion

namespace Script

/-! ### Definitions in a script -/

/-- The name that a line defines as a function. -/
def definedName (line : Text) : Option Text := Text.between "function ".toList "() \x7b".toList line

/-- The names of the functions that a script defines, in order. -/
def functionNames (script : Text) : List Text := (Text.lines script).filterMap definedName

/-- A line that starts like neither a definition nor a registration. -/
def isPlain (line : Text) : Bool := line.head? != some 'f' && line.head? != some 'c'

theorem definedName_eq_none {line : Text} (h : (line.head? != some 'f') = true) : definedName line = none := by
  cases line with
  | nil => rfl
  | cons c line =>
    have hc : 'f' ≠ c := by
      rintro rfl
      cases h
    have front : "function ".toList.isPrefixOf? (c :: line) = none := by
      show (if ('f' == c) = true then _ else none) = none
      rw [if_neg (by simpa using hc)]
    rw [definedName, Text.between, front]
    rfl

theorem filterMap_of_isPlain {ls : List Text} (h : ∀ l ∈ ls, isPlain l = true) : ls.filterMap definedName = [] :=
  List.filterMap_eq_nil_iff.mpr fun l hl => definedName_eq_none (Bool.and_eq_true_iff.mp (h l hl)).1

theorem definedName_header (name : Text) :
    definedName ("function ".toList ++ name ++ "() \x7b".toList) = some name :=
  Text.between_append _ _ _

/-- Lines that define one function: the header of the function among plain lines. -/
def Defines (name : Text) (ls : List Text) : Prop :=
  ∃ before body, ls = before ++ ("function ".toList ++ name ++ "() \x7b".toList) :: body ∧
    (∀ l ∈ before, isPlain l = true) ∧ ∀ l ∈ body, isPlain l = true

/-- Comments may stand in front of the header. -/
theorem Defines.of_dropWhile {ls body : List Text} {name : Text}
    (hls : ls.dropWhile (·.head? == some '#') = ("function ".toList ++ name ++ "() \x7b".toList) :: body)
    (hbody : ∀ l ∈ body, isPlain l = true) : Defines name ls := by
  refine ⟨ls.takeWhile (·.head? == some '#'), body, ?_, fun l hl => ?_, hbody⟩
  · rw [← hls, List.takeWhile_append_dropWhile]
  · have hhead : (l.head? == some '#') = true := List.all_eq_true.mp List.all_takeWhile l hl
    rw [isPlain, beq_iff_eq.mp hhead]
    rfl

theorem Defines.filterMap_definedName {ls : List Text} {name : Text} (h : Defines name ls) :
    ls.filterMap definedName = [name] := by
  obtain ⟨before, body, rfl, hbefore, hbody⟩ := h
  rw [List.filterMap_append, filterMap_of_isPlain hbefore, List.filterMap_cons_some (definedName_header name),
    filterMap_of_isPlain hbody]
  rfl

theorem isPlain_headerLines (banner command : Text) : ∀ l ∈ headerLines banner command, isPlain l = true :=
  List.all_eq_true.mp rfl

end Script

namespace CompletionFunction
open Script

theorem isPlain_policyLines (policy : Policy) : ∀ l ∈ policyLines policy, isPlain l = true := by
  cases policy <;> exact List.all_eq_true.mp rfl

theorem isPlain_armLines (o : ArgumentOption) : ∀ l ∈ armLines o, isPlain l = true := by
  unfold armLines
  rw [List.forall_mem_append, List.forall_mem_append]
  exact ⟨⟨List.all_eq_true.mp rfl, isPlain_policyLines o.policy⟩, List.all_eq_true.mp rfl⟩

theorem isPlain_caseLines (options : List ArgumentOption) : ∀ l ∈ caseLines options, isPlain l = true := by
  unfold caseLines
  split
  · nofun
  · rw [List.forall_mem_append, List.forall_mem_append, List.forall_mem_flatMap]
    exact ⟨⟨List.all_eq_true.mp rfl, fun o _ => isPlain_armLines o⟩, List.all_eq_true.mp rfl⟩

/-- The source of a function defines the function and nothing else. -/
theorem defines_lines (f : CompletionFunction) : Defines f.identifier f.lines := by
  refine Defines.of_dropWhile (dropWhile_lines f) ?_
  simp only [List.forall_mem_append, List.forall_mem_cons]
  exact ⟨⟨List.all_eq_true.mp rfl, rfl, rfl, rfl, isPlain_caseLines _⟩, List.all_eq_true.mp rfl⟩

end CompletionFunction

namespace EntryFunction
open Script

theorem isPlain_transitionLines (t : Transition) : ∀ l ∈ transitionLines t, isPlain l = true := by
  unfold transitionLines
  rw [List.forall_mem_append, List.forall_mem_append, List.forall_mem_map]
  exact ⟨⟨List.all_eq_true.mp rfl, fun _ _ => rfl⟩, List.all_eq_true.mp rfl⟩

/-- The source of an entry point defines the entry point and nothing else. -/
theorem defines_lines (e : EntryFunction) : Defines e.identifier e.lines := by
  refine Defines.of_dropWhile (dropWhile_lines e) ?_
  simp only [List.forall_mem_append, List.forall_mem_cons, List.forall_mem_flatMap]
  exact ⟨rfl, ⟨List.all_eq_true.mp rfl, fun t _ => isPlain_transitionLines t⟩, List.all_eq_true.mp rfl⟩

theorem filterMap_definedName_registrationLines (e : EntryFunction) :
    e.registrationLines.filterMap definedName = [] := by
  have heads : ∀ l ∈ e.registrationLines, (l.head? != some 'f') = true := List.all_eq_true.mp rfl
  exact List.filterMap_eq_nil_iff.mpr fun l hl => definedName_eq_none (heads l hl)

end EntryFunction

namespace Script
variable {aliases : List Text} {model : Command} {banner script : Text} {functions : List CompletionFunction}
  {entry : EntryFunction}

/-- A generated script defines the functions of its commands, then the entry point, and nothing else. -/
theorem functionNames_script (generated : GeneratedFrom aliases model banner script functions entry) :
    functionNames script = functions.map (·.identifier) ++ [entry.identifier] := by
  have one : ∀ f : CompletionFunction, ([] :: f.lines).filterMap definedName = [f.identifier] := fun f => by
    rw [List.filterMap_cons_none rfl, (CompletionFunction.defines_lines f).filterMap_definedName]
  have each : functions.flatMap (fun f => ([] :: f.lines).filterMap definedName) = functions.map (·.identifier) := by
    rw [List.map_eq_flatMap]
    exact congrArg functions.flatMap (funext one)
  rw [functionNames, lines_script generated, lines, List.filterMap_append, List.filterMap_append,
    List.filterMap_append, filterMap_of_isPlain (isPlain_headerLines _ _), List.filterMap_flatMap, each,
    List.filterMap_cons_none rfl, List.filterMap_cons_none rfl,
    (EntryFunction.defines_lines entry).filterMap_definedName, EntryFunction.filterMap_definedName_registrationLines,
    List.nil_append, List.append_nil]

/-! ### Names -/

/-- A command's function and an entry point have names that differ behind the underscore. -/
theorem identifierOf_ne_entry (p q : List Text) :
    CompletionFunction.identifierOf CompletionFunction.defaultStem p ≠
      CompletionFunction.identifierOf EntryFunction.stem q := by
  have front : CompletionFunction.defaultStem = '_' :: 't' :: "absmith".toList := rfl
  have front' : EntryFunction.stem = '_' :: 'c' :: "omplete".toList := rfl
  intro h
  rw [CompletionFunction.identifierOf, CompletionFunction.identifierOf, front, front'] at h
  exact absurd (List.cons.inj (List.cons.inj h).2).1 (by decide)

/-- The functions of a script are named after paths from the root of its model. -/
theorem mem_functionNames (generated : GeneratedFrom aliases model banner script functions entry) {name : Text}
    (hname : name ∈ functionNames script) :
    ∃ more, name = CompletionFunction.identifierOf CompletionFunction.defaultStem (model.name :: more) ∨
      name = CompletionFunction.identifierOf EntryFunction.stem (model.name :: more) := by
  rw [functionNames_script generated] at hname
  obtain ⟨-, -, rfl, rfl, -⟩ := generatedFrom_iff.mp generated
  rcases List.mem_append.mp hname with hname | hname
  · obtain ⟨f, hf, rfl⟩ := List.mem_map.mp hname
    obtain ⟨node, hnode, rfl⟩ := List.mem_map.mp hf
    obtain ⟨more, hpath⟩ := Command.path_of_mem_nodes hnode
    exact ⟨more, Or.inl (by rw [← hpath]; rfl)⟩
  · exact ⟨[], Or.inr (List.mem_singleton.mp hname)⟩

theorem functionNames_nodup (generated : GeneratedFrom aliases model banner script functions entry) :
    (functionNames script).Nodup := by
  rw [functionNames_script generated]
  obtain ⟨-, hcommands, rfl, rfl, -⟩ := generatedFrom_iff.mp generated
  have commands : ((functionsOf model).map (·.identifier)).Nodup := by
    rw [functionsOf, List.map_map]
    exact Dispatch.nodup_identifiers hcommands
  refine List.nodup_append.mpr ⟨commands, List.nodup_singleton _, fun name hname name' hname' => ?_⟩
  obtain ⟨f, hf, rfl⟩ := List.mem_map.mp hname
  obtain ⟨node, hnode, rfl⟩ := List.mem_map.mp hf
  obtain rfl := List.mem_singleton.mp hname'
  exact identifierOf_ne_entry node.path [model.name]

variable {aliases' : List Text} {model' : Command} {banner' script' : Text} {functions' : List CompletionFunction}
  {entry' : EntryFunction}

theorem functionNames_disjoint (generated : GeneratedFrom aliases model banner script functions entry)
    (generated' : GeneratedFrom aliases' model' banner' script' functions' entry') (hroot : model.name ≠ model'.name) :
    (functionNames script).Disjoint (functionNames script') := by
  rw [List.disjoint_left]
  intro name hname hname'
  obtain ⟨more, hname⟩ := mem_functionNames generated hname
  obtain ⟨more', hname'⟩ := mem_functionNames generated' hname'
  -- Behind one stem the names have the same path, which starts at both roots.
  have root : ∀ stem, name = CompletionFunction.identifierOf stem (model.name :: more) →
      name ≠ CompletionFunction.identifierOf stem (model'.name :: more') := fun stem h h' =>
    hroot (List.cons.inj (CompletionFunction.identifierOf_inj (h.symm.trans h'))).1
  rcases hname with h | h <;> rcases hname' with h' | h'
  · exact root _ h h'
  · exact identifierOf_ne_entry _ _ (h.symm.trans h')
  · exact identifierOf_ne_entry _ _ (h'.symm.trans h)
  · exact root _ h h'

/-- Names of functions never collide: not those of two paths behind one stem, not those in one script, and not those
    in the scripts of two models whose roots have different names. -/
theorem function_names_never_collide :
    (∀ (stem : Text) (p q : List Text), p ≠ [] → q ≠ [] →
      ∃ name name', CompletionFunction.identifierOf? stem p = .ok name ∧
        CompletionFunction.identifierOf? stem q = .ok name' ∧ (name = name' → p = q)) ∧
    (∀ (aliases : List Text) (model : Command) (banner script : Text),
      (generate aliases model banner).result = .ok script →
        ∃ functions entry, GeneratedFrom aliases model banner script functions entry ∧
          functionNames script = functions.map (·.identifier) ++ [entry.identifier] ∧
          (functionNames script).Nodup) ∧
    (∀ (aliases aliases' : List Text) (model model' : Command) (banner banner' script script' : Text),
      (generate aliases model banner).result = .ok script →
        (generate aliases' model' banner').result = .ok script' →
          model.name ≠ model'.name → (functionNames script).Disjoint (functionNames script')) := by
  refine ⟨fun stem p q hp hq => ?paths, fun _ _ _ _ accepted => ?script, ?scripts⟩
  case paths =>
    exact ⟨_, _, CompletionFunction.identifierOf?_eq_ok hp, CompletionFunction.identifierOf?_eq_ok hq,
      CompletionFunction.identifierOf_inj⟩
  case script =>
    obtain ⟨functions, entry, generated⟩ := generate_eq_ok_iff_generatedFrom.mp accepted
    exact ⟨functions, entry, generated, functionNames_script generated, functionNames_nodup generated⟩
  case scripts =>
    intro _ _ _ _ _ _ _ _ accepted accepted' hroot
    obtain ⟨_, _, generated⟩ := generate_eq_ok_iff_generatedFrom.mp accepted
    obtain ⟨_, _, generated'⟩ := generate_eq_ok_iff_generatedFrom.mp accepted'
    exact functionNames_disjoint generated generated' hroot

/-- The paths `a`, `bc` and `ab`, `c`; the sample; and the sample beside a model with an underscore more. -/
theorem function_names_never_collide_sample :
    (∃ name name', CompletionFunction.identifierOf? [] ["a".toList, "bc".toList] = .ok name ∧
      CompletionFunction.identifierOf? [] ["ab".toList, "c".toList] = .ok name' ∧ name ≠ name') ∧
    ∃ script script', (generate sampleAliases sample []).result = .ok script ∧
      (generate sampleAliases { name := "demo_".toList } []).result = .ok script' ∧
        (functionNames script).Nodup ∧ (functionNames script).Disjoint (functionNames script') := by
  obtain ⟨paths, single, pair⟩ := function_names_never_collide
  have apart : ["a".toList, "bc".toList] ≠ ["ab".toList, "c".toList] := by decide
  have other : ∃ script, (generate sampleAliases { name := "demo_".toList } []).result = .ok script := ⟨_, rfl⟩
  have roots : sample.name ≠ "demo_".toList := by decide
  refine ⟨?_, ?_⟩
  · obtain ⟨name, name', hname, hname', inj⟩ := paths [] _ _ (List.cons_ne_nil _ _) (List.cons_ne_nil _ _)
    exact ⟨name, name', hname, hname', fun h => apart (inj h)⟩
  · obtain ⟨script, accepted⟩ := sample_accepted
    obtain ⟨script', accepted'⟩ := other
    obtain ⟨_, _, _, _, nodup⟩ := single _ _ _ _ accepted
    exact ⟨script, script', accepted, accepted', nodup, pair _ _ _ _ _ _ _ _ accepted accepted' roots⟩

end Script
end ShellCompletion

import ShellCompletion.Proofs.FunctionNames

/-! How often a script does what it is there for: it defines one function for each command of the tree, in the order
    of the tree, and then the entry point, and it registers the entry point once, on its last line. No text of a
    model, of a banner or of an alias makes a line look like a definition or a registration. -/

namespace ShellCompletion.Script

/-- Does a line start like a registration? -/
def isRegistration (line : Text) : Bool := "complete ".toList.isPrefixOf line

theorem isRegistration_eq_false {line : Text} (h : (line.head? != some 'c') = true) : isRegistration line = false := by
  cases line with
  | nil => rfl
  | cons c line =>
    have hc : ('c' == c) = false := by
      rw [beq_eq_false_iff_ne]
      rintro rfl
      cases h
    have front : "complete ".toList = 'c' :: "omplete ".toList := rfl
    rw [isRegistration, front, List.isPrefixOf_cons_cons, hc, Bool.false_and]

theorem filter_isRegistration_eq_nil {ls : List Text} (h : ∀ l ∈ ls, (l.head? != some 'c') = true) :
    ls.filter isRegistration = [] :=
  List.filter_eq_nil_iff.mpr fun l hl => by simp [isRegistration_eq_false (h l hl)]

theorem head?_ne_of_isPlain {ls : List Text} (h : ∀ l ∈ ls, isPlain l = true) :
    ∀ l ∈ ls, (l.head? != some 'c') = true := fun l hl => (Bool.and_eq_true_iff.mp (h l hl)).2

/-- Lines that define a function register nothing. -/
theorem Defines.head?_ne {name : Text} {ls : List Text} (h : Defines name ls) :
    ∀ l ∈ ls, (l.head? != some 'c') = true := by
  obtain ⟨before, body, rfl, hbefore, hbody⟩ := h
  simp only [List.forall_mem_append, List.forall_mem_cons]
  exact ⟨head?_ne_of_isPlain hbefore, rfl, head?_ne_of_isPlain hbody⟩

/-- Of the lines of a registration the last one registers; the others are comments. -/
theorem filter_registrationLines (e : EntryFunction) :
    ∃ line, e.registrationLines.filter isRegistration = [line] ∧ e.registrationLines.getLast? = some line :=
  ⟨_, rfl, rfl⟩

variable {aliases : List Text} {model : Command} {banner script : Text} {functions : List CompletionFunction}
  {entry : EntryFunction}

/-- A generated script registers once, on its last line. -/
theorem filter_isRegistration_script (generated : GeneratedFrom aliases model banner script functions entry) :
    ∃ line, (Text.lines script).filter isRegistration = [line] ∧ (Text.lines script).getLast? = some line := by
  have front : ∀ l ∈ headerLines banner model.name ++ functions.flatMap (fun f => [] :: f.lines) ++ [] :: entry.lines,
      (l.head? != some 'c') = true := by
    simp only [List.forall_mem_append, List.forall_mem_cons, List.forall_mem_flatMap]
    exact ⟨⟨head?_ne_of_isPlain (isPlain_headerLines _ _),
      fun f _ => ⟨rfl, (CompletionFunction.defines_lines f).head?_ne⟩⟩,
      rfl, (EntryFunction.defines_lines entry).head?_ne⟩
  obtain ⟨line, registered, last⟩ := filter_registrationLines entry
  refine ⟨line, ?_, ?_⟩
  · rw [lines_script generated, lines, List.filter_append, filter_isRegistration_eq_nil front, List.nil_append,
      List.filter_cons_of_neg (by decide), registered]
  · rw [lines_script generated, lines, List.getLast?_append, List.getLast?_cons, last]
    rfl

/-- A generated script defines the functions of all commands, root first and in order of declaration, and then the
    entry point, which makes one more than there are commands; and one line of it registers, which is the last. -/
theorem script_defines_commands_and_registers_once
    (accepted : (generate aliases model banner).result = .ok script) :
    (∃ name, EntryFunction.identifierOf model = .ok name ∧
      functionNames script = model.nodes.map (fun node =>
        CompletionFunction.identifierOf CompletionFunction.defaultStem node.path) ++ [name]) ∧
    (functionNames script).length = model.nodeCount + 1 ∧
    ∃ line, (Text.lines script).filter isRegistration = [line] ∧ (Text.lines script).getLast? = some line := by
  obtain ⟨functions, entry, generated⟩ := generate_eq_ok_iff_generatedFrom.mp accepted
  obtain ⟨-, hcommands, hfunctions, hentry, -⟩ := generatedFrom_iff.mp generated
  have name_ne_nil : model.name ≠ [] := (hcommands _ model.root_mem_nodes).name.ne_nil
  have named : EntryFunction.identifierOf model = .ok (EntryFunction.stem ++ Shell.Identifier.ofPath [model.name]) := by
    simp [EntryFunction.identifierOf, name_ne_nil]
  have names : functionNames script = model.nodes.map (fun node =>
      CompletionFunction.identifierOf CompletionFunction.defaultStem node.path) ++
        [EntryFunction.stem ++ Shell.Identifier.ofPath [model.name]] := by
    rw [functionNames_script generated, hfunctions, hentry, functionsOf, List.map_map]
    rfl
  refine ⟨⟨_, named, names⟩, ?_, filter_isRegistration_script generated⟩
  rw [names, List.length_append, List.length_map, Command.length_nodes]
  rfl

/-- A command whose description and subcommand are written like a definition and a registration. -/
def misleading : Command where
  name := "f".toList
  description := some "x\nfunction g() \x7b\ncomplete -F g f".toList
  subcommands := [{ name := "complete".toList }]

theorem misleading_defines_and_registers_once :
    ∃ script, (generate ["f".toList] misleading "\nfunction h() \x7b".toList).result = .ok script ∧
      functionNames script =
        ["_tabsmith_1_f".toList, "_tabsmith_1_f_8_complete".toList, "_complete_1_f".toList] ∧
      (Text.lines script).filter isRegistration = ["complete -F _complete_1_f -o default f".toList] := by
  have accepted : ∃ script, (generate ["f".toList] misleading "\nfunction h() \x7b".toList).result = .ok script :=
    ⟨_, rfl⟩
  obtain ⟨script, accepted⟩ := accepted
  obtain ⟨⟨name, named, names⟩, -, line, registered, last⟩ := script_defines_commands_and_registers_once accepted
  obtain ⟨_, _, generated⟩ := generate_eq_ok_iff_generatedFrom.mp accepted
  obtain ⟨-, -, -, rfl, -⟩ := generatedFrom_iff.mp generated
  rw [getLast?_lines_script generated] at last
  cases named
  refine ⟨script, accepted, names, ?_⟩
  rw [registered, ← Option.some.inj last]
  rfl

end ShellCompletion.Script

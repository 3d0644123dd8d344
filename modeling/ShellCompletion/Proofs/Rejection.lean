import ShellCompletion.Proofs.Acceptance

/-! What is reported where no script can be made: a bad alias if there is one, and else the first defect of the first
    command that has one, root first and in order of declaration. -/

namespace ShellCompletion

/-! ### Flawless commands -/

/-- What a command must keep to by itself, its subcommands being judged on their own. -/
structure Command.Flawless (c : Command) : Prop where
  name : IsWord c.name
  subcommands_nodup : c.subcommandNames.Nodup
  names_ne_nil : ∀ o ∈ c.options, o.names ≠ []
  names : ∀ o ∈ c.options, ∀ name ∈ o.names, IsWord name
  names_nodup : (c.options.flatMap (·.names)).Nodup
  candidates : ∀ o ∈ c.options, o.takesArgument = true → ∀ values ∈ o.candidates, ∀ value ∈ values, IsWord value

theorem CommandOption.mem_values {o : CommandOption} {value : Text} :
    value ∈ o.values ↔ o.takesArgument = true ∧ ∃ values ∈ o.candidates, value ∈ values := by
  unfold CommandOption.values CommandOption.policy Policy.resolve
  cases o.takesArgument <;> rcases o.candidates with _ | values
  · simp
  · simp
  · cases o.fileValued <;> simp [Policy.candidates]
  · simp [Policy.candidates]

namespace Command

theorem Completable.flawless {c : Command} (h : c.Completable) : c.Flawless where
  name := h.name
  subcommands_nodup := h.subcommands_nodup
  names_ne_nil o ho := (h.options o ho).names_ne_nil
  names o ho := (h.options o ho).names
  names_nodup := h.aliases_nodup
  candidates o ho htakes values hvalues value hvalue :=
    (h.options o ho).values value (CommandOption.mem_values.mpr ⟨htakes, values, hvalues, hvalue⟩)

theorem Flawless.completable {c : Command} (h : c.Flawless) (hsubs : ∀ sub ∈ c.subcommands, IsWord sub.name) :
    c.Completable where
  name := h.name
  subcommands := List.forall_mem_map.mpr hsubs
  subcommands_nodup := h.subcommands_nodup
  options o ho := {
    names_ne_nil := h.names_ne_nil o ho
    names := h.names o ho
    values := fun value hvalue => by
      obtain ⟨htakes, values, hvalues, hvalue⟩ := CommandOption.mem_values.mp hvalue
      exact h.candidates o ho htakes values hvalues value hvalue }
  aliases_nodup := h.names_nodup

/-- In a tree the names of subcommands are judged twice: on the subcommands and on the command above. -/
theorem forall_flawless {c : Command} :
    (∀ node ∈ c.nodes, node.command.Flawless) ↔ ∀ node ∈ c.nodes, node.command.Completable :=
  ⟨fun h node hnode => (h node hnode).completable fun _ hsub => (h _ (sub_mem_nodes hnode hsub)).name,
    fun h node hnode => (h node hnode).flawless⟩

/-! ### Defects of a tree -/

/-- What is wrong with a node of a tree. A root without a name is noticed before anything else. -/
def Node.defects (node : Node) : List Failure :=
  (if node.path = [[]] then [.unnamedRoot] else []) ++ node.command.defects

theorem path_ne_of_mem_nodesBelowAll {node : Node} {cs : List Command} {name : Text}
    (hnode : node ∈ nodesBelowAll [name] cs) : node.path ≠ [[]] := by
  obtain ⟨sub, more, hpath⟩ := path_of_mem_nodesBelowAll cs hnode
  simp [hpath]

theorem flatMap_defects_nodes (c : Command) :
    c.nodes.flatMap (·.defects) =
      (if c.name = [] then [.unnamedRoot] else []) ++ c.nodes.flatMap (·.command.defects) := by
  have below : (nodesBelowAll [c.name] c.subcommands).flatMap (·.defects) =
      (nodesBelowAll [c.name] c.subcommands).flatMap (·.command.defects) :=
    List.flatMap_congr fun node hnode => by simp [Node.defects, path_ne_of_mem_nodesBelowAll hnode]
  rw [nodes_eq, List.flatMap_cons, List.flatMap_cons, below, ← List.append_assoc]
  simp [Node.defects]

/-- No node of a tree has a defect if every command has what it takes: then the root has a name. -/
theorem flatMap_defects_eq_nil {c : Command} :
    c.nodes.flatMap (·.defects) = [] ↔ ∀ node ∈ c.nodes, node.command.Completable := by
  rw [flatMap_defects_nodes, List.append_eq_nil_iff, List.flatMap_eq_nil_iff]
  simp only [defects_eq_nil]
  constructor
  · exact fun h => h.2
  · exact fun h => ⟨if_neg (h _ c.root_mem_nodes).name.ne_nil, h⟩

theorem Node.defects_eq_nil {c : Command} {node : Node} (hnode : node ∈ c.nodes) :
    node.defects = [] ↔ node.command.Completable := by
  have named : node.command.Completable → node.path ≠ [[]] := by
    intro h
    rw [nodes_eq, List.mem_cons] at hnode
    rcases hnode with rfl | hnode
    · simpa using h.name.ne_nil
    · exact path_ne_of_mem_nodesBelowAll hnode
  rw [Node.defects, List.append_eq_nil_iff, Command.defects_eq_nil]
  exact ⟨fun h => h.2, fun h => ⟨if_neg (named h), h⟩⟩

end Command

/-! ### Classes of defects -/

/-- The classes of failure that blame the model for a script that cannot be made. -/
def Failure.BlamesModel (f : Failure) : Prop := f.kind = .invalidCommandModel ∨ f.kind = .duplicateOption

section
variable {f : Failure} {command : Text}

theorem blamesModel_of_mem_wordDefects {use : WordUse} {word : Text} (h : f ∈ wordDefects command use word) :
    f.BlamesModel := by
  unfold wordDefects at h
  split at h
  · obtain rfl := List.mem_singleton.mp h
    exact Or.inl rfl
  · split at h
    · obtain rfl := List.mem_singleton.mp h
      exact Or.inl rfl
    · cases h

theorem blamesModel_of_mem_nameDefects {use : WordUse} {repeated : Text → Failure}
    (hrepeated : ∀ name, (repeated name).BlamesModel) {earlier names : List Text}
    (h : f ∈ nameDefects (wordDefects command use) repeated earlier names) : f.BlamesModel := by
  obtain ⟨name, -, h | rfl⟩ := mem_nameDefects h
  · exact blamesModel_of_mem_wordDefects h
  · exact hrepeated name

theorem OptionTable.blamesModel_of_mem_defects {o : CommandOption} {earlier : List Text}
    (h : f ∈ (OptionTable.rules command).defects earlier o) : f.BlamesModel := by
  rw [OptionRules.defects, List.mem_append, List.mem_append] at h
  rcases h with (h | h) | h
  · split at h
    · obtain rfl := List.mem_singleton.mp h
      exact Or.inl rfl
    · cases h
  · exact blamesModel_of_mem_nameDefects (fun _ => Or.inr rfl) h
  · obtain ⟨value, -, h⟩ := List.mem_flatMap.mp h
    exact blamesModel_of_mem_wordDefects h

theorem Command.Node.blamesModel_of_mem_defects {node : Command.Node} (h : f ∈ node.defects) : f.BlamesModel := by
  rw [defects, Command.defects, OptionRules.allDefects, List.mem_append, List.mem_append, List.mem_append,
    List.mem_flatMap] at h
  rcases h with h | (h | h) | ⟨_, -, h⟩
  · split at h
    · obtain rfl := List.mem_singleton.mp h
      exact Or.inl rfl
    · cases h
  · exact blamesModel_of_mem_wordDefects h
  · exact blamesModel_of_mem_nameDefects (fun _ => Or.inl rfl) h
  · exact OptionTable.blamesModel_of_mem_defects h

end

/-! ### Scripts -/

/-- The first defect among those of many things is the first of the first thing that has any. -/
theorem head?_flatMap_eq_some {α β : Type} {l : List α} {g : α → List β} {b : β} :
    (l.flatMap g).head? = some b ↔
      ∃ before a after, l = before ++ a :: after ∧ (∀ x ∈ before, g x = []) ∧ (g a).head? = some b := by
  simp only [List.head?_flatMap, List.findSome?_eq_some_iff, List.head?_eq_none_iff]
  constructor
  · rintro ⟨before, a, after, h, ha, hbefore⟩
    exact ⟨before, a, after, h, hbefore, ha⟩
  · rintro ⟨before, a, after, h, hbefore, ha⟩
    exact ⟨before, a, after, h, ha, hbefore⟩

namespace Script
variable {aliases : List Text} {model : Command} {banner : Text} {f : Failure}

/-- What aliases must keep to. -/
structure AliasesUsable (aliases : List Text) : Prop where
  ne_nil : aliases ≠ []
  word : ∀ a ∈ aliases, IsWord a
  dash : ∀ a ∈ aliases, a.head? ≠ some '-'

theorem isCommandWord_iff {a : Text} : isCommandWord a = true ↔ IsWord a ∧ a.head? ≠ some '-' := by
  simp only [isCommandWord, Bool.and_eq_true, Bool.not_eq_true', bne_iff_ne, List.isEmpty_eq_false_iff]
  constructor
  · rintro ⟨⟨hne, hdash⟩, hspace⟩
    exact ⟨⟨hne, hspace⟩, hdash⟩
  · rintro ⟨⟨hne, hspace⟩, hdash⟩
    exact ⟨⟨hne, hdash⟩, hspace⟩

theorem aliasesUsable_iff : AliasesUsable aliases ↔ aliasDefects aliases = [] := by
  rw [aliasDefects_eq_nil]
  simp only [isCommandWord_iff]
  constructor
  · rintro ⟨hne, hword, hdash⟩
    exact ⟨hne, fun a ha => ⟨hword a ha, hdash a ha⟩⟩
  · rintro ⟨hne, h⟩
    exact ⟨hne, fun a ha => (h a ha).1, fun a ha => (h a ha).2⟩

theorem kind_of_mem_aliasDefects (h : f ∈ aliasDefects aliases) : f.kind = .invalidArgument := by
  unfold aliasDefects at h
  split at h
  · obtain rfl := List.mem_singleton.mp h
    rfl
  · obtain ⟨a, -, rfl⟩ := List.mem_map.mp h
    rfl

theorem identifierOf_eq_report :
    EntryFunction.identifierOf model =
      (report (if model.name = [] then [.unnamedRoot] else []) >>= fun _ =>
        .ok (EntryFunction.stem ++ Shell.Identifier.ofPath [model.name])) := by
  unfold EntryFunction.identifierOf
  cases model.name <;> rfl

/-- Nothing but defects of the aliases, and then of the commands, keeps a script from being made. -/
theorem generate_eq_report :
    (generate aliases model banner).result =
      (report (aliasDefects aliases ++ model.nodes.flatMap (·.defects)) >>= fun _ =>
        .ok (assemble banner model.name (functionsOf model) (entryOf model aliases.eraseDups))) := by
  rw [report_append, Command.flatMap_defects_nodes, report_append]
  simp only [generate, Logged.result_bind, Logged.result_lift, Logged.info, Logged.result_log, Logged.result_pure,
    checkAliases_eq_report, identifierOf_eq_report, CompletionFunction.ofTree_eq_report, bind_assoc]
  by_cases hname : model.name = []
  · simp [hname, report, bind, Except.bind]
  · have entry : EntryFunction.ofFunctions model (functionsOf model) aliases.eraseDups = .ok (entryOf model _) :=
      ofFunctions_functionsOf hname
    rw [functionsOf] at entry
    simp only [ok_bind, entry]
    rfl

theorem exists_generate_eq_ok :
    (∃ script, (generate aliases model banner).result = .ok script) ↔
      AliasesUsable aliases ∧ ∀ node ∈ model.nodes, node.command.Flawless := by
  rw [aliasesUsable_iff, Command.forall_flawless, ← Command.flatMap_defects_eq_nil, ← List.append_eq_nil_iff,
    ← report_eq_ok, generate_eq_report]
  constructor
  · rintro ⟨script, h⟩
    obtain ⟨_, hreport, -⟩ := bind_eq_ok.mp h
    exact hreport
  · exact fun h => ⟨_, by rw [h]; rfl⟩

theorem generate_eq_error :
    (generate aliases model banner).result = .error f ↔
      (aliasDefects aliases ++ model.nodes.flatMap (·.defects)).head? = some f := by
  rw [generate_eq_report, report_bind_eq_error]

/-- A script is made exactly for usable aliases and flawless commands. Otherwise a failure of the class
    `invalidArgument` blames the aliases, if they are not usable; and if they are, the failure is the first defect of
    the first command, root first and in order of declaration, that has any. -/
theorem generate_succeeds_or_reports_first_defect (aliases : List Text) (model : Command) (banner : Text) :
    ((∃ script, (generate aliases model banner).result = .ok script) ↔
      AliasesUsable aliases ∧ ∀ node ∈ model.nodes, node.command.Flawless) ∧
    ∀ f, (generate aliases model banner).result = .error f →
      (f.kind = .invalidArgument ↔ ¬AliasesUsable aliases) ∧
      (AliasesUsable aliases → f.BlamesModel ∧
        ∃ before node after, model.nodes = before ++ node :: after ∧
          (∀ earlier ∈ before, earlier.command.Completable) ∧ ¬node.command.Completable ∧
          node.defects.head? = some f) := by
  refine ⟨exists_generate_eq_ok, fun f hf => ?_⟩
  rw [generate_eq_error] at hf
  by_cases husable : AliasesUsable aliases
  · rw [aliasesUsable_iff.mp husable, List.nil_append, head?_flatMap_eq_some] at hf
    obtain ⟨before, node, after, hnodes, hbefore, hnode⟩ := hf
    have mem : ∀ n ∈ before ++ node :: after, n ∈ model.nodes := fun n hn => hnodes ▸ hn
    have blames : f.BlamesModel := Command.Node.blamesModel_of_mem_defects (List.mem_of_head? hnode)
    have other : f.kind ≠ .invalidArgument := by
      rcases blames with h | h <;> simp [h]
    refine ⟨iff_of_false other (not_not_intro husable), fun _ => ⟨blames, before, node, after, hnodes, ?_, ?_, hnode⟩⟩
    · intro n hn
      exact (Command.Node.defects_eq_nil (mem n (List.mem_append_left _ hn))).mp (hbefore n hn)
    · rw [← Command.Node.defects_eq_nil (mem node (by simp))]
      intro h
      rw [h] at hnode
      cases hnode
  · have some : aliasDefects aliases ≠ [] := fun h => husable (aliasesUsable_iff.mpr h)
    rw [List.head?_append_of_ne_nil _ some] at hf
    exact ⟨iff_of_true (kind_of_mem_aliasDefects (List.mem_of_head? hf)) husable, fun h => absurd h husable⟩

/-- A model with defects in both of its subcommands. -/
def flawed : Command where
  name := "demo".toList
  subcommands := [
    { name := "one".toList, options := [.flag ["-x".toList], .argument ["-x".toList]] },
    { name := "two".toList, options := [.flag []] }]

theorem generate_reports_repeated_option :
    (generate ["demo".toList] flawed []).result = .error (.duplicateOption "one".toList "-x".toList) ∧
      ∃ before node after, flawed.nodes = before ++ node :: after ∧
        (∀ earlier ∈ before, earlier.command.Completable) ∧ ¬node.command.Completable ∧
        node.defects.head? = some (.duplicateOption "one".toList "-x".toList) := by
  have failed : (generate ["demo".toList] flawed []).result = .error (.duplicateOption "one".toList "-x".toList) := rfl
  have usable : AliasesUsable ["demo".toList] := aliasesUsable_iff.mpr rfl
  obtain ⟨-, report⟩ := generate_succeeds_or_reports_first_defect ["demo".toList] flawed []
  exact ⟨failed, ((report _ failed).2 usable).2⟩

end Script
end ShellCompletion

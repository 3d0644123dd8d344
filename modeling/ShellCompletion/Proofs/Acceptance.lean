import ShellCompletion.Proofs.CommandTree
import ShellCompletion.Proofs.Defects
import ShellCompletion.Script

/-! Which models are accepted. A command has no defects if its words, its subcommands and its options meet certain
    conditions; a tree has functions if each of its commands is `Completable`, and a script if moreover its aliases
    are command words. What is then returned depends on nothing else. -/

namespace ShellCompletion

/-! ### Words -/

/-- A text that is one word for the shell. -/
structure IsWord (t : Text) : Prop where
  ne_nil : t ≠ []
  hasSpace : t.hasSpace = false

theorem wordDefects_eq_nil {command word : Text} {use : WordUse} : wordDefects command use word = [] ↔ IsWord word := by
  unfold wordDefects
  constructor
  · intro h
    split at h
    · cases h
    · next hne =>
      split at h
      · cases h
      · next hspace => exact ⟨hne, by simpa using hspace⟩
  · rintro ⟨hne, hspace⟩
    simp [hne, hspace]

/-! ### Options -/

/-- What an option must keep to by itself. -/
structure CommandOption.Completable (o : CommandOption) : Prop where
  names_ne_nil : o.names ≠ []
  names : ∀ name ∈ o.names, IsWord name
  values : ∀ value ∈ o.values, IsWord value

theorem OptionTable.accepts_iff {command : Text} {o : CommandOption} :
    (OptionTable.rules command).Accepts o ↔ o.Completable := by
  have words : ∀ {use : WordUse} {l : List Text}, l.flatMap (wordDefects command use) = [] ↔ ∀ t ∈ l, IsWord t := by
    simp only [List.flatMap_eq_nil_iff, wordDefects_eq_nil, implies_true]
  constructor
  · rintro ⟨hnil, hnames, hvalues⟩
    exact ⟨hnil, fun name hname => wordDefects_eq_nil.mp (hnames name hname), words.mp hvalues⟩
  · rintro ⟨hnil, hnames, hvalues⟩
    exact ⟨hnil, fun name hname => wordDefects_eq_nil.mpr (hnames name hname), words.mpr hvalues⟩

/-! ### Commands -/

/-- What a command must keep to for having a completion function. -/
structure Command.Completable (c : Command) : Prop where
  name : IsWord c.name
  subcommands : ∀ name ∈ c.subcommandNames, IsWord name
  subcommands_nodup : c.subcommandNames.Nodup
  options : ∀ o ∈ c.options, o.Completable
  aliases_nodup : (c.options.flatMap (·.names)).Nodup

theorem Command.defects_eq_nil {c : Command} : c.defects = [] ↔ c.Completable := by
  simp only [Command.defects, List.append_eq_nil_iff, wordDefects_eq_nil, nameDefects_eq_nil,
    OptionRules.allDefects_eq_nil, OptionTable.accepts_iff, List.flatMap_nil, fresh_of_nothing]
  constructor
  · rintro ⟨⟨hname, hsubs, hsubs_nodup⟩, hoptions, haliases⟩
    exact ⟨hname, hsubs, hsubs_nodup, hoptions, haliases⟩
  · rintro ⟨hname, hsubs, hsubs_nodup, hoptions, haliases⟩
    exact ⟨⟨hname, hsubs, hsubs_nodup⟩, hoptions, haliases⟩

namespace CompletionFunction
variable {stem : Text} {node : Command.Node}

/-- The function of a node whose command is completable. -/
def atNode (stem : Text) (node : Command.Node) : CompletionFunction where
  identifier := identifierOf stem node.path
  path := node.path
  description := node.command.description
  options := .ofOptions node.command.options
  subcommands := node.command.subcommandNames.map fun name => ⟨name, identifierOf stem (node.path ++ [name])⟩

@[simp] theorem subcommandNames_atNode : (atNode stem node).subcommandNames = node.command.subcommandNames := by
  rw [subcommandNames, atNode, List.map_map]
  exact List.map_id _

/-- Only the defects of its command keep a node from having a function. -/
theorem ofNode_eq_report : ofNode stem node = (report node.command.defects >>= fun _ => .ok (atNode stem node)) := by
  rw [ofNode, checkWord_eq_report, checkSubcommands_eq_report, OptionTable.ofCommand, OptionTable.check_eq_report,
    Command.defects, report_append, report_append]
  simp only [bind_assoc]
  rfl

/-- A tree has one function for each command, in order, unless one of them has a defect. -/
theorem ofTree_eq_report (stem : Text) (root : Command) :
    (ofTree stem root).result =
      (report (root.nodes.flatMap (·.command.defects)) >>= fun _ => .ok (root.nodes.map (atNode stem))) := by
  unfold ofTree
  rw [Logged.result_mapM]
  refine mapM_eq_report (fun node => ?_) _
  simp only [Logged.result_bind, Logged.result_lift, Logged.debug, Logged.result_log, Logged.result_pure,
    ofNode_eq_report, bind_assoc]
  rfl

/-- A tree has functions if each of its commands is completable. -/
theorem ofTree_eq_ok {root : Command} {functions : List CompletionFunction} :
    (ofTree stem root).result = .ok functions ↔
      (∀ node ∈ root.nodes, node.command.Completable) ∧ functions = root.nodes.map (atNode stem) := by
  simp only [ofTree_eq_report, bind_eq_ok, exists_unit, report_eq_ok, List.flatMap_eq_nil_iff, Command.defects_eq_nil,
    Except.ok.injEq, eq_comm (a := functions)]

end CompletionFunction

/-! ### Scripts -/

namespace Script
variable {aliases kept : List Text} {model : Command} {banner script : Text}

/-- What is wrong with the aliases of a script. -/
def aliasDefects (aliases : List Text) : List Failure :=
  if aliases = [] then [.noAlias] else (aliases.filter (!isCommandWord ·)).map .invalidAlias

theorem checkAliasesFrom_eq_report :
    checkAliasesFrom kept aliases =
      (report ((aliases.filter (!isCommandWord ·)).map .invalidAlias) >>= fun _ =>
        .ok (kept ++ (aliases.filter fun a => !kept.contains a).eraseDups)) := by
  induction aliases generalizing kept with
  | nil => simp [checkAliasesFrom, report, bind, Except.bind]
  | cons a aliases ih =>
    by_cases ha : isCommandWord a = true
    · have first : (a :: aliases).filter (!isCommandWord ·) = aliases.filter (!isCommandWord ·) := by simp [ha]
      rw [checkAliasesFrom, first, ha, Bool.not_true, if_neg Bool.false_ne_true, ih]
      congr 1
      funext _
      by_cases hkept : a ∈ kept
      · simp [hkept]
      · have later : (aliases.filter fun b => !(kept ++ [a]).contains b) =
            (aliases.filter fun b => !kept.contains b).filter fun b => !b == a := by
          rw [List.filter_filter]
          congr 1
          funext b
          cases hb : kept.contains b <;> cases hba : b == a <;> simp_all
        have new : (a :: aliases).filter (fun b => !kept.contains b) =
            a :: aliases.filter fun b => !kept.contains b := List.filter_cons_of_pos (by simp [hkept])
        rw [new, List.eraseDups_cons, ← later]
        simp [hkept]
    · simp [checkAliasesFrom, ha, report, bind, Except.bind]

theorem checkAliases_eq_report :
    checkAliases aliases = (report (aliasDefects aliases) >>= fun _ => .ok aliases.eraseDups) := by
  unfold checkAliases aliasDefects
  cases aliases with
  | nil => rfl
  | cons a aliases => simp [checkAliasesFrom_eq_report]

theorem aliasDefects_eq_nil : aliasDefects aliases = [] ↔ aliases ≠ [] ∧ ∀ a ∈ aliases, isCommandWord a = true := by
  unfold aliasDefects
  split <;> simp [*]

/-- Aliases are accepted if there is one and all are command words; the first of equal ones is kept. -/
theorem checkAliases_eq_ok :
    checkAliases aliases = .ok kept ↔
      (aliases ≠ [] ∧ ∀ a ∈ aliases, isCommandWord a = true) ∧ kept = aliases.eraseDups := by
  rw [checkAliases_eq_report, bind_eq_ok, exists_unit, report_eq_ok, aliasDefects_eq_nil, Except.ok.injEq,
    eq_comm (a := kept)]

/-- The functions of all commands of a model. -/
def functionsOf (model : Command) : List CompletionFunction :=
  model.nodes.map (CompletionFunction.atNode CompletionFunction.defaultStem)

/-- The entry point of a model whose commands all have functions. -/
def entryOf (model : Command) (kept : List Text) : EntryFunction where
  identifier := EntryFunction.stem ++ Shell.Identifier.ofPath [model.name]
  root := CompletionFunction.identifierOf CompletionFunction.defaultStem [model.name]
  transitions := ((functionsOf model).filter (!·.subcommands.isEmpty)).map fun f => ⟨f.identifier, f.subcommands⟩
  aliases := kept

/-- The entry point is made from the functions of all commands, whatever their names start with. -/
theorem ofFunctions_atNode {stem : Text} (hname : model.name ≠ []) :
    EntryFunction.ofFunctions model (model.nodes.map (CompletionFunction.atNode stem)) kept = .ok {
      identifier := EntryFunction.stem ++ Shell.Identifier.ofPath [model.name]
      root := CompletionFunction.identifierOf stem [model.name]
      transitions := ((model.nodes.map (CompletionFunction.atNode stem)).filter (!·.subcommands.isEmpty)).map fun f =>
        ⟨f.identifier, f.subcommands⟩
      aliases := kept } := by
  simp [EntryFunction.ofFunctions, EntryFunction.identifierOf, hname, Command.nodes_eq, CompletionFunction.atNode, bind,
    Except.bind, pure, Except.pure]

theorem ofFunctions_functionsOf (hname : model.name ≠ []) :
    EntryFunction.ofFunctions model (functionsOf model) kept = .ok (entryOf model kept) := ofFunctions_atNode hname

/-- The functions and the entry point that a script was generated from. -/
structure GeneratedFrom (aliases : List Text) (model : Command) (banner script : Text)
    (functions : List CompletionFunction) (entry : EntryFunction) : Prop where
  functions_eq : (CompletionFunction.ofTree CompletionFunction.defaultStem model).result = .ok functions
  entry_eq : (checkAliases aliases >>= EntryFunction.ofFunctions model functions) = .ok entry
  script_eq : script = assemble banner model.name functions entry

theorem generate_eq_ok_iff_generatedFrom :
    (generate aliases model banner).result = .ok script ↔
      ∃ functions entry, GeneratedFrom aliases model banner script functions entry := by
  simp only [generate, Logged.result_bind, Logged.result_lift, Logged.info, Logged.result_log, Logged.result_pure,
    bind_eq_ok]
  constructor
  · rintro ⟨kept, hkept, _, -, functions, hfunctions, entry, hentry, _, -, h⟩
    cases h
    exact ⟨functions, entry, hfunctions, bind_eq_ok.mpr ⟨kept, hkept, hentry⟩, rfl⟩
  · rintro ⟨functions, entry, hfunctions, hentry, rfl⟩
    obtain ⟨kept, hkept, hentry⟩ := bind_eq_ok.mp hentry
    obtain ⟨identifier, hidentifier, -⟩ := bind_eq_ok.mp hentry
    exact ⟨kept, hkept, identifier, hidentifier, functions, hfunctions, entry, hentry, (), trivial, rfl⟩

variable {functions : List CompletionFunction} {entry : EntryFunction}

/-- A script is generated exactly for acceptable aliases and completable commands, and from nothing else. -/
theorem generatedFrom_iff :
    GeneratedFrom aliases model banner script functions entry ↔
      (aliases ≠ [] ∧ ∀ a ∈ aliases, isCommandWord a = true) ∧ (∀ node ∈ model.nodes, node.command.Completable) ∧
        functions = functionsOf model ∧ entry = entryOf model aliases.eraseDups ∧
        script = assemble banner model.name functions entry := by
  have name_ne_nil : (∀ node ∈ model.nodes, node.command.Completable) → model.name ≠ [] := fun h =>
    (h _ model.root_mem_nodes).name.ne_nil
  constructor
  · rintro ⟨hfunctions, hentry, hscript⟩
    obtain ⟨hcommands, rfl⟩ := CompletionFunction.ofTree_eq_ok.mp hfunctions
    obtain ⟨kept, hkept, hentry⟩ := bind_eq_ok.mp hentry
    obtain ⟨haliases, rfl⟩ := checkAliases_eq_ok.mp hkept
    refine ⟨haliases, hcommands, rfl, ?_, hscript⟩
    exact (Except.ok.inj ((ofFunctions_functionsOf (name_ne_nil hcommands)).symm.trans hentry)).symm
  · rintro ⟨haliases, hcommands, rfl, rfl, hscript⟩
    exact ⟨CompletionFunction.ofTree_eq_ok.mpr ⟨hcommands, rfl⟩,
      bind_eq_ok.mpr ⟨_, checkAliases_eq_ok.mpr ⟨haliases, rfl⟩, ofFunctions_functionsOf (name_ne_nil hcommands)⟩,
      hscript⟩

/-- A model whose words mean something to the shell, with one subcommand name at two depths. -/
def sample : Command where
  name := "demo".toList
  options := [.flag ["-h".toList, "--help".toList]]
  subcommands := [
    { name := "it's".toList
      options := [(CommandOption.argument ["-m".toList, "$".toList]).withCandidates ["a|b".toList, "#".toList]]
      subcommands := [{ name := "it's".toList }] },
    { name := "esac".toList
      description := some "in\nfact".toList
      options := [(CommandOption.argument ["in".toList]).withFiles] }]

/-- The aliases of the sample: a repetition, and a word that has to be quoted. -/
def sampleAliases : List Text := ["demo".toList, "x*".toList, "demo".toList]

theorem sample_accepted : ∃ script, (generate sampleAliases sample []).result = .ok script := ⟨_, rfl⟩

end Script
end ShellCompletion

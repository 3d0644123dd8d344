import ShellCompletion.Proofs.Acceptance
import ShellCompletion.Proofs.Findings
import ShellCompletion.Validation

/-! Which models are valid. Validation visits every command of a tree, warns of what flags say about values, and fails
    with the first defect that it meets; a model is valid if each of its commands is `Valid`. -/

namespace ShellCompletion

/-! ### Words -/

theorem isWord_iff {t : Text} : IsWord t ↔ t.isBlank = false ∧ t.hasSpace = false := by
  constructor
  · rintro ⟨hne, hspace⟩
    refine ⟨?_, hspace⟩
    obtain ⟨c, t, rfl⟩ := List.exists_cons_of_ne_nil hne
    rw [Text.hasSpace, List.any_cons, Bool.or_eq_false_iff] at hspace
    simp [Text.isBlank, hspace.1]
  · rintro ⟨hblank, hspace⟩
    refine ⟨?_, hspace⟩
    rintro rfl
    cases hblank

namespace Validation

theorem isOptionName_iff {name : Text} :
    isOptionName name = true ↔ ∃ dashes c rest, name = dashes ++ c :: rest ∧ (dashes = ['-'] ∨ dashes = ['-', '-']) ∧
      c ≠ '-' ∧ Text.isSpace c = false ∧ Text.hasSpace rest = false := by
  unfold isOptionName
  split
  · next c t =>
    simp only [Bool.and_eq_true, Bool.not_eq_true', bne_iff_ne]
    constructor
    · rintro ⟨⟨hdash, hc⟩, ht⟩
      exact ⟨['-', '-'], c, t, rfl, Or.inr rfl, hdash, hc, ht⟩
    · rintro ⟨dashes, d, rest, heq, rfl | rfl, hdash, hd, hrest⟩
      · -- After a single dash the next character is the second dash, which cannot begin the name.
        cases heq
        exact absurd rfl hdash
      · cases heq
        exact ⟨⟨hdash, hd⟩, hrest⟩
  · next c t htwo =>
    simp only [Bool.and_eq_true, Bool.not_eq_true', bne_iff_ne]
    constructor
    · rintro ⟨⟨hdash, hc⟩, ht⟩
      exact ⟨['-'], c, t, rfl, Or.inl rfl, hdash, hc, ht⟩
    · rintro ⟨dashes, d, rest, heq, rfl | rfl, hdash, hd, hrest⟩
      · cases heq
        exact ⟨⟨hdash, hd⟩, hrest⟩
      · cases heq
        exact absurd rfl (htwo d rest rfl)
  · next htwo hone =>
    refine iff_of_false Bool.false_ne_true ?_
    rintro ⟨dashes, d, rest, rfl, rfl | rfl, -⟩
    · exact hone d rest rfl
    · exact htwo d rest rfl

theorem isWord_of_isOptionName {name : Text} (h : isOptionName name = true) : IsWord name := by
  obtain ⟨dashes, c, rest, rfl, hdashes, -, hc, hrest⟩ := isOptionName_iff.mp h
  have dash : Text.hasSpace dashes = false := by
    rcases hdashes with rfl | rfl <;> rfl
  refine ⟨by simp, ?_⟩
  rw [Text.hasSpace, List.any_append, List.any_cons, ← Text.hasSpace, ← Text.hasSpace, dash, hc, hrest]
  rfl

/-! ### Defects -/

/-- What is wrong with the name of a command. -/
def commandNameDefects (mode : Strictness) (name : Text) : List Failure :=
  if name.isBlank then [.blankName]
  else if name.hasSpace then [.spacedName name]
  else if mode = .strict ∧ isRegularName name = false then [.irregularName name]
  else []

/-- What is wrong with a value that is offered for an option. -/
def candidateDefects (option command candidate : Text) : List Failure :=
  if candidate.isBlank then [.blankCandidate option command]
  else if candidate.hasSpace then [.spacedCandidate candidate option command]
  else []

/-- Names must have the form of an option, and values that are offered must be words. -/
def rules (command : Text) : OptionRules where
  nameless := .undeclaredNames command
  name name := if isOptionName name then [] else [.irregularOption name command]
  repeated := .duplicateOption command
  values o := if o.takesArgument then (o.candidates.getD []).flatMap (candidateDefects o.label command) else []

/-- What validation finds wrong with a command: with its name, then with those of its subcommands, then with its
    options. -/
def defects (mode : Strictness) (c : Command) : List Failure :=
  commandNameDefects mode c.name ++
    nameDefects (fun _ => []) (.duplicateSubcommand · c.name) [] c.subcommandNames ++
    (rules c.name).allDefects [] c.options

/-- What an option says of its values: defects where they are offered, and otherwise only warnings. -/
def valueFindings (command : Text) (o : CommandOption) : List Finding :=
  if o.takesArgument then ((rules command).values o).map .defect else (flagWarnings command o).map .warning

/-- What validation comes across in an option where other options have the earlier names. -/
def optionFindings (command : Text) (earlier : List Text) (o : CommandOption) : List Finding :=
  ((if o.names = [] then [(rules command).nameless] else []) ++
    nameDefects (rules command).name (rules command).repeated earlier o.names).map .defect ++ valueFindings command o

/-- What validation comes across in a command, in order. -/
def findings (mode : Strictness) (c : Command) : List Finding :=
  (commandNameDefects mode c.name ++
    nameDefects (fun _ => []) (.duplicateSubcommand · c.name) [] c.subcommandNames).map .defect ++
    (withEarlier [] c.options).flatMap fun (earlier, o) => optionFindings c.name (earlier.flatMap (·.names)) o

variable {mode : Strictness} {command : Text}

theorem checkName_eq_report (name : Text) : checkName mode name = report (commandNameDefects mode name) := by
  unfold checkName commandNameDefects
  repeat' split
  all_goals rfl

theorem checkSubcommands_eq_report {seen : List Text} (names : List Text) :
    checkSubcommands command seen names =
      report (nameDefects (fun _ => []) (.duplicateSubcommand · command) seen names) := by
  induction names generalizing seen with
  | nil => rfl
  | cons name names ih =>
    rw [checkSubcommands, nameDefects_cons, ih]
    by_cases h : name ∈ seen <;> simp [h, report]

theorem checkNames_eq_report {seen : List Text} (names : List Text) :
    checkNames command seen names =
      (report (nameDefects (rules command).name (rules command).repeated seen names) >>= fun _ =>
        .ok (names.reverse ++ seen)) := by
  induction names generalizing seen with
  | nil => rfl
  | cons name names ih =>
    rw [checkNames, nameDefects_cons, ih]
    cases hname : isOptionName name with
    | false => simp [rules, hname, report, bind, Except.bind]
    | true => by_cases h : name ∈ seen <;> simp [rules, hname, h, report, bind, Except.bind]

theorem checkCandidate_eq_report (option candidate : Text) :
    checkCandidate option command candidate = report (candidateDefects option command candidate) := by
  unfold checkCandidate candidateDefects
  repeat' split
  all_goals rfl

theorem checkValues_eq_heed (o : CommandOption) : checkValues command o = Finding.heed (valueFindings command o) := by
  unfold checkValues valueFindings
  cases htakes : o.takesArgument with
  | true =>
    have values : (o.candidates.getD []).forM (checkCandidate o.label command) = report ((rules command).values o) := by
      simp only [rules, htakes, if_true]
      exact inOrder_report.forM_eq (checkCandidate_eq_report o.label) _
    rw [if_pos rfl, if_pos rfl, values, Finding.heed_defects]
  | false =>
    rw [if_neg Bool.false_ne_true, if_neg Bool.false_ne_true]
    exact (Finding.heed_warnings _).symm

theorem checkOption_eq_heed (command : Text) (seen : List Text) (o : CommandOption) :
    checkOption command seen o =
      (Finding.heed (optionFindings command seen o) >>= fun _ => pure (o.names.reverse ++ seen)) := by
  by_cases hnil : o.names = []
  · simp only [checkOption, optionFindings, hnil]
    rfl
  · have named : checkOption command seen o =
        (Logged.lift (checkNames command seen o.names) >>= fun seen => checkValues command o >>= fun _ => pure seen) := by
      simp [checkOption, hnil]
    rw [named, optionFindings, if_neg hnil, List.nil_append, Finding.inOrder_heed.append, Finding.heed_defects,
      checkNames_eq_report, checkValues_eq_heed, Logged.lift_bind, bind_assoc, bind_assoc]
    rfl

theorem optionFindings_congr {earlier earlier' : List Text} (h : ∀ n, n ∈ earlier ↔ n ∈ earlier') (o : CommandOption) :
    optionFindings command earlier o = optionFindings command earlier' o := by
  rw [optionFindings, optionFindings, nameDefects_congr h]

theorem checkCommand_eq_heed (mode : Strictness) (c : Command) : checkCommand mode c = Finding.heed (findings mode c) := by
  have nothing (n : Text) : n ∈ [] ↔ n ∈ ([] : List CommandOption).flatMap (·.names) := by simp
  have options := Finding.inOrder_heed.foldlM_eq (checkOption_eq_heed c.name) (fun o h => optionFindings_congr h o)
    nothing c.options
  rw [findings, Finding.inOrder_heed.append, Finding.heed_defects, report_append, ← options, ← checkName_eq_report,
    ← checkSubcommands_eq_report, Logged.lift_bind, bind_assoc]
  rfl

theorem defects_optionFindings (earlier : List Text) (o : CommandOption) :
    (optionFindings command earlier o).filterMap Finding.defect? = (rules command).defects earlier o := by
  have values : (valueFindings command o).filterMap Finding.defect? = (rules command).values o := by
    unfold valueFindings
    cases htakes : o.takesArgument with
    | true => exact Finding.filterMap_defect_map _
    | false =>
      rw [if_neg Bool.false_ne_true, Finding.filterMap_defect_warnings]
      simp [rules, htakes]
  rw [optionFindings, List.filterMap_append, Finding.filterMap_defect_map, values]
  rfl

theorem defects_findings (mode : Strictness) (c : Command) :
    (findings mode c).filterMap Finding.defect? = defects mode c := by
  rw [findings, List.filterMap_append, Finding.filterMap_defect_map, List.filterMap_flatMap]
  simp only [defects_optionFindings]
  rfl

end Validation

/-- A tree is checked one command after the other, the last subcommand first. -/
theorem Command.validate_eq_heed (mode : Validation.Strictness) (c : Command) :
    c.validate mode = Finding.heed (c.lastFirst.flatMap (Validation.findings mode)) :=
  Finding.inOrder_heed.forM_eq (Validation.checkCommand_eq_heed mode) _

theorem Command.result_validate (mode : Validation.Strictness) (c : Command) :
    (c.validate mode).result = report (c.lastFirst.flatMap (Validation.defects mode)) := by
  rw [validate_eq_heed, Finding.result_heed, List.filterMap_flatMap]
  simp only [Validation.defects_findings]

/-! ### Valid commands -/

/-- What an option of a valid command keeps to by itself. -/
structure CommandOption.Valid (o : CommandOption) : Prop where
  names_ne_nil : o.names ≠ []
  names : ∀ name ∈ o.names, Validation.isOptionName name = true
  candidates : o.takesArgument = true → ∀ values ∈ o.candidates, ∀ value ∈ values, IsWord value

/-- What a command of a valid model keeps to by itself. -/
structure Command.Valid (mode : Validation.Strictness) (c : Command) : Prop where
  name : IsWord c.name
  regular : mode = .strict → Validation.isRegularName c.name = true
  subcommands_nodup : c.subcommandNames.Nodup
  options : ∀ o ∈ c.options, o.Valid
  names_nodup : (c.options.flatMap (·.names)).Nodup

namespace Validation
variable {mode : Strictness} {command : Text}

theorem commandNameDefects_eq_nil {name : Text} :
    commandNameDefects mode name = [] ↔ IsWord name ∧ (mode = .strict → isRegularName name = true) := by
  rw [isWord_iff]
  cases hblank : name.isBlank <;> cases hspace : name.hasSpace <;> simp [commandNameDefects, hblank, hspace]

theorem candidateDefects_eq_nil {option candidate : Text} :
    candidateDefects option command candidate = [] ↔ IsWord candidate := by
  rw [isWord_iff]
  cases hblank : candidate.isBlank <;> cases hspace : candidate.hasSpace <;> simp [candidateDefects, hblank, hspace]

theorem accepts_iff {o : CommandOption} : (rules command).Accepts o ↔ o.Valid := by
  have names : (∀ name ∈ o.names, (rules command).name name = []) ↔ ∀ name ∈ o.names, isOptionName name = true := by
    simp [rules]
  have values : (rules command).values o = [] ↔
      (o.takesArgument = true → ∀ values ∈ o.candidates, ∀ value ∈ values, IsWord value) := by
    simp only [rules]
    cases o.takesArgument <;> cases o.candidates <;> simp [candidateDefects_eq_nil]
  constructor
  · rintro ⟨hnil, hnames, hvalues⟩
    exact ⟨hnil, names.mp hnames, values.mp hvalues⟩
  · rintro ⟨hnil, hnames, hvalues⟩
    exact ⟨hnil, names.mpr hnames, values.mpr hvalues⟩

theorem defects_eq_nil {c : Command} : defects mode c = [] ↔ c.Valid mode := by
  simp only [defects, List.append_eq_nil_iff, commandNameDefects_eq_nil, nameDefects_eq_nil,
    OptionRules.allDefects_eq_nil, accepts_iff, List.flatMap_nil, fresh_of_nothing]
  constructor
  · rintro ⟨⟨⟨hname, hregular⟩, -, hsubs⟩, hoptions, hnames⟩
    exact ⟨hname, hregular, hsubs, hoptions, hnames⟩
  · rintro ⟨hname, hregular, hsubs, hoptions, hnames⟩
    exact ⟨⟨⟨hname, hregular⟩, fun _ _ => trivial, hsubs⟩, hoptions, hnames⟩

end Validation

/-- A model is valid if each of its commands is. -/
theorem Command.validate_eq_ok {mode : Validation.Strictness} {c : Command} :
    (c.validate mode).result = .ok () ↔ ∀ node ∈ c.nodes, node.command.Valid mode := by
  rw [result_validate, report_eq_ok, List.flatMap_eq_nil_iff, forall_mem_lastFirst]
  simp only [Validation.defects_eq_nil]

end ShellCompletion

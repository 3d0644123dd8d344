import ShellCompletion.Proofs.Classification
import ShellCompletion.Proofs.Validity

/-! Validation and the sorting of options go through the same aliases in the same order, but judge them differently:
    what validation lets pass the sorting lets pass as well, and only an alias given twice is reported by both. So
    whichever of them meets such an alias first, the other has met the same one or something that it judges itself. -/

namespace ShellCompletion

/-! ### Stricter findings -/

/-- What a check finds first is of its own kind or what the other check finds first, and where it finds nothing the
    other finds nothing either. -/
structure Stricter (ds es : List Failure) : Prop where
  head : ∀ f, ds.head? = some f → f.kind = .validation ∨ es.head? = some f
  nil : ds = [] → es = []

namespace Stricter
variable {ds es ds' es' : List Failure}

theorem refl (ds : List Failure) : Stricter ds ds := ⟨fun _ h => Or.inr h, id⟩

theorem of_kind (hkind : ∀ f ∈ ds, f.kind = .validation) (hnil : ds = [] → es = []) : Stricter ds es :=
  ⟨fun f h => Or.inl (hkind f (List.mem_of_head? h)), hnil⟩

theorem append (h : Stricter ds es) (h' : Stricter ds' es') : Stricter (ds ++ ds') (es ++ es') := by
  cases ds with
  | nil =>
    rw [h.nil rfl]
    exact h'
  | cons d ds =>
    refine ⟨fun f hf => ?_, fun hnil => absurd hnil (by simp)⟩
    rcases h.head f hf with hkind | hhead
    · exact Or.inl hkind
    · right
      rw [List.head?_append, hhead, Option.some_or]

theorem flatMap {α : Type} {g g' : α → List Failure} {l : List α} (h : ∀ a ∈ l, Stricter (g a) (g' a)) :
    Stricter (l.flatMap g) (l.flatMap g') := by
  induction l with
  | nil => exact refl []
  | cons a l ih =>
    obtain ⟨ha, hl⟩ := List.forall_mem_cons.mp h
    rw [List.flatMap_cons, List.flatMap_cons]
    exact append ha (ih hl)

/-- A failure of no kind of its own is found by both checks or by neither. -/
theorem head?_of_head? {f : Failure} (h : Stricter ds es) (hf : es.head? = some f) :
    ds.head? = some f ∨ ∃ g, ds.head? = some g ∧ g.kind = .validation := by
  cases hds : ds.head? with
  | none =>
    have hnil := h.nil (List.head?_eq_none_iff.mp hds)
    rw [hnil] at hf
    cases hf
  | some g =>
    rcases h.head g hds with hkind | hg
    · exact Or.inr ⟨g, rfl, hkind⟩
    · left
      rw [← hg, hf]

end Stricter

/-! ### Options -/

namespace Validation
variable {command : Text}

theorem stricter_name (name : Text) : Stricter ((rules command).name name) ((OptionTable.rules command).name name) := by
  refine .of_kind (fun f hf => ?_) fun hnil => ?_
  · simp only [rules] at hf
    split at hf
    · cases hf
    · rw [List.mem_singleton.mp hf]
      rfl
  · have hname : isOptionName name = true := by
      by_contra hname
      simp [rules, hname] at hnil
    exact wordDefects_eq_nil.mpr (isWord_of_isOptionName hname)

theorem stricter_candidate (option candidate : Text) :
    Stricter (candidateDefects option command candidate) (wordDefects command .completionValue candidate) := by
  refine .of_kind (fun f hf => ?_) fun hnil => ?_
  · unfold candidateDefects at hf
    split at hf
    · rw [List.mem_singleton.mp hf]
      rfl
    split at hf
    · rw [List.mem_singleton.mp hf]
      rfl
    · cases hf
  · exact wordDefects_eq_nil.mpr (candidateDefects_eq_nil.mp hnil)

theorem values_of_takesArgument {o : CommandOption} (htakes : o.takesArgument = true) :
    o.values = o.candidates.getD [] := by
  rw [CommandOption.values, CommandOption.policy, if_pos htakes, Option.bind_some]
  cases o.candidates with
  | none => cases o.fileValued <;> rfl
  | some values => rfl

theorem stricter_values (o : CommandOption) :
    Stricter ((rules command).values o) ((OptionTable.rules command).values o) := by
  simp only [rules, OptionTable.rules]
  cases htakes : o.takesArgument with
  | true =>
    rw [if_pos rfl, values_of_takesArgument htakes]
    exact .flatMap fun candidate _ => stricter_candidate o.label candidate
  | false =>
    -- a flag offers nothing, whatever candidates it declares
    have hvalues : o.values = [] := by simp [CommandOption.values, CommandOption.policy, htakes]
    rw [if_neg Bool.false_ne_true, hvalues]
    exact .refl []

theorem stricter_names (earlier names : List Text) :
    Stricter (nameDefects (rules command).name (rules command).repeated earlier names)
      (nameDefects (OptionTable.rules command).name (OptionTable.rules command).repeated earlier names) := by
  refine .flatMap fun p _ => .append (stricter_name p.2) ?_
  exact .refl _

theorem stricter_option (earlier : List Text) (o : CommandOption) :
    Stricter ((rules command).defects earlier o) ((OptionTable.rules command).defects earlier o) := by
  have nameless : Stricter (if o.names = [] then [(rules command).nameless] else [])
      (if o.names = [] then [(OptionTable.rules command).nameless] else []) := by
    by_cases hnil : o.names = []
    · rw [if_pos hnil, if_pos hnil]
      exact .of_kind (fun f hf => by rw [List.mem_singleton.mp hf]; rfl) nofun
    · rw [if_neg hnil, if_neg hnil]
      exact .refl []
  exact (nameless.append (stricter_names earlier o.names)).append (stricter_values o)

theorem stricter_options (options : List CommandOption) :
    Stricter ((rules command).allDefects [] options) ((OptionTable.rules command).allDefects [] options) :=
  .flatMap fun p _ => stricter_option _ p.2

/-! ### Commands -/

/-- Of a command that stands alone under a valid name validation finds only what is wrong with its options. -/
theorem result_validate_alone {mode : Strictness} {c : Command} (alone : c.subcommands = [])
    (named : checkName mode c.name = .ok ()) :
    (c.validate mode).result = report ((rules c.name).allDefects [] c.options) := by
  have hname : commandNameDefects mode c.name = [] := by
    rw [← report_eq_ok, ← checkName_eq_report, named]
  have hsubs : c.subcommandNames = [] := by rw [Command.subcommandNames, alone, List.map_nil]
  have hfirst : c.lastFirst = [c] := by
    obtain ⟨name, description, options, subs⟩ := c
    obtain rfl : subs = [] := alone
    rfl
  rw [Command.result_validate, hfirst, List.flatMap_singleton, defects, hname, hsubs, List.nil_append]
  rfl

theorem report_eq_error {ds : List Failure} {f : Failure} : report ds = .error f ↔ ds.head? = some f := by
  cases ds <;> simp [report]

/-- For a command that stands alone under a valid name: an alias that validation reports as given twice is the one that
    the sorting of options reports, and what validation accepts can be sorted. An alias that the sorting reports is the
    one that validation reports, or validation fails for something that the sorting does not ask for. -/
theorem sorting_reports_same_duplicate (mode : Strictness) (c : Command) (alone : c.subcommands = [])
    (named : checkName mode c.name = .ok ()) :
    (∀ command option, (c.validate mode).result = .error (.duplicateOption command option) →
        OptionTable.ofCommand c = .error (.duplicateOption command option)) ∧
      ((c.validate mode).result = .ok () → ∃ table, OptionTable.ofCommand c = .ok table) ∧
      ∀ command option, OptionTable.ofCommand c = .error (.duplicateOption command option) →
        (c.validate mode).result = .error (.duplicateOption command option) ∨
          ∃ f, (c.validate mode).result = .error f ∧ f.kind = .validation := by
  have stricter : Stricter ((rules c.name).allDefects [] c.options)
      ((OptionTable.rules c.name).allDefects [] c.options) := stricter_options c.options
  rw [result_validate_alone alone named]
  simp only [OptionTable.ofCommand_eq_error, report_eq_error, report_eq_ok]
  refine ⟨fun command option h => ?_, fun hnil => ?_, fun command option h => stricter.head?_of_head? h⟩
  · rcases stricter.head _ h with hkind | hhead
    · cases hkind
    · exact hhead
  · refine ⟨.ofOptions c.options, ?_⟩
    rw [OptionTable.ofCommand_eq_report, stricter.nil hnil]
    rfl

/-- A command whose second option repeats an alias of the first. -/
def repeating : Command where
  name := "demo".toList
  options := [.flag ["-h".toList, "--help".toList], .argument ["--host".toList, "-h".toList]]

/-- A command whose second option has an alias without a dash before the one that it repeats. -/
def dashless : Command where
  name := "demo".toList
  options := [.flag ["-h".toList], .flag ["help".toList, "-h".toList]]

theorem sorting_reports_same_duplicate_repeating :
    (repeating.subcommands = [] ∧ checkName .strict repeating.name = .ok () ∧
        (repeating.validate .strict).result = .error (.duplicateOption "demo".toList "-h".toList) ∧
        OptionTable.ofCommand repeating = .error (.duplicateOption "demo".toList "-h".toList)) ∧
      dashless.subcommands = [] ∧ checkName .lenient dashless.name = .ok () ∧
        OptionTable.ofCommand dashless = .error (.duplicateOption "demo".toList "-h".toList) ∧
        ∃ f, (dashless.validate .lenient).result = .error f ∧ f.kind = .validation := by
  have repeated : (repeating.validate .strict).result = .error (.duplicateOption "demo".toList "-h".toList) := rfl
  have sorted : OptionTable.ofCommand dashless = .error (.duplicateOption "demo".toList "-h".toList) := rfl
  obtain ⟨reported, -, -⟩ := sorting_reports_same_duplicate .strict repeating rfl rfl
  obtain ⟨-, -, met⟩ := sorting_reports_same_duplicate .lenient dashless rfl rfl
  refine ⟨⟨rfl, rfl, repeated, reported _ _ repeated⟩, rfl, rfl, sorted, ?_⟩
  rcases met _ _ sorted with same | other
  · cases same
  · exact other

end Validation
end ShellCompletion

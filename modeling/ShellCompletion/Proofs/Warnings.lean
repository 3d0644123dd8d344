import ShellCompletion.Proofs.Rejection
import ShellCompletion.Proofs.Validity
import ShellCompletion.Proofs.Worklist

/-! What validation reports. It works its commands off a stack, from which the last subcommand comes first, and its log
    holds the warnings of all flags that it met before the first defect, in the same order. How strictly names are
    judged shows in the defects only. -/

namespace ShellCompletion

/-- What the flags of a command draw in warnings. -/
def Command.warnings (c : Command) : List Text :=
  c.options.flatMap fun o => if o.takesArgument then [] else Validation.flagWarnings c.name o

theorem flatMap_withEarlier {α β : Type} (g : α → List β) (earlier l : List α) :
    ((withEarlier earlier l).flatMap fun x => g x.2) = l.flatMap g := by
  induction l generalizing earlier with
  | nil => rfl
  | cons a l ih => rw [withEarlier, List.flatMap_cons, List.flatMap_cons, ih]

namespace Validation
variable {mode : Strictness} {c : Command} {f : Failure}

theorem warnings_optionFindings (command : Text) (earlier : List Text) (o : CommandOption) :
    (optionFindings command earlier o).filterMap Finding.warning? =
      if o.takesArgument then [] else flagWarnings command o := by
  rw [optionFindings, List.filterMap_append, Finding.filterMap_warning_defects, List.nil_append, valueFindings]
  cases o.takesArgument with
  | true => exact Finding.filterMap_warning_defects _
  | false => exact Finding.filterMap_warning_map _

/-- What validation may warn of in a command is the same in both modes. -/
theorem warnings_findings (mode : Strictness) (c : Command) :
    (findings mode c).filterMap Finding.warning? = c.warnings := by
  rw [findings, List.filterMap_append, Finding.filterMap_warning_defects, List.nil_append, List.filterMap_flatMap]
  simp only [warnings_optionFindings]
  exact flatMap_withEarlier (fun o => if o.takesArgument then [] else flagWarnings c.name o) [] c.options

theorem findings_of_valid (hvalid : c.Valid mode) : findings mode c = c.warnings.map .warning := by
  have none : (findings mode c).filterMap Finding.defect? = [] := by
    rw [defects_findings, defects_eq_nil]
    exact hvalid
  rw [← warnings_findings mode c]
  exact Finding.eq_map_warning none

theorem flatMap_findings_of_valid {cs : List Command} (hvalid : ∀ c ∈ cs, c.Valid mode) :
    cs.flatMap (findings mode) = (cs.flatMap (·.warnings)).map .warning := by
  rw [List.map_flatMap]
  exact List.flatMap_congr fun c hc => findings_of_valid (hvalid c hc)

/-- Of the first command with a defect, what comes before the defect is warned of, and so is all of the commands
    before. -/
theorem heed_findings {before : List Command} (after : List Command) (hbefore : ∀ d ∈ before, d.Valid mode)
    (hf : (defects mode c).head? = some f) :
    ∃ met rest, findings mode c = met.map .warning ++ .defect f :: rest ∧
      Finding.heed ((before ++ c :: after).flatMap (findings mode)) =
        ⟨Finding.warned (before.flatMap (·.warnings) ++ met), .error f⟩ := by
  rw [← defects_findings] at hf
  obtain ⟨met, rest, hsplit⟩ := Finding.exists_split hf
  refine ⟨met, rest, hsplit, ?_⟩
  rw [List.flatMap_append, List.flatMap_cons, flatMap_findings_of_valid hbefore, hsplit, List.append_assoc,
    ← List.append_assoc, ← List.map_append, List.cons_append, Finding.heed_eq_error]

/-! ### Whole models -/

variable {model : Command}

/-- Validation of a model without defects warns of what all its flags say. -/
theorem validate_of_valid (hvalid : ∀ node ∈ model.nodes, node.command.Valid mode) :
    model.validate mode = ⟨Finding.warned (model.lastFirst.flatMap (·.warnings)), .ok ()⟩ := by
  rw [Command.validate_eq_heed, flatMap_findings_of_valid (Command.forall_mem_lastFirst.mpr hvalid), Finding.heed_eq_ok]

/-- Where no flag says anything of a value, validation warns of nothing, whatever else it finds. -/
theorem events_validate_eq_nil (hquiet : ∀ node ∈ model.nodes, node.command.warnings = []) (mode : Strictness) :
    (model.validate mode).events = [] := by
  rw [Command.validate_eq_heed]
  apply Finding.events_heed_eq_nil
  rw [List.filterMap_flatMap]
  simp only [warnings_findings]
  exact List.flatMap_eq_nil_iff.mpr (Command.forall_mem_lastFirst.mpr hquiet)

/-- Validation with a defect ends in the first command that has one. -/
theorem validate_of_error (h : (model.validate mode).result = .error f) :
    ∃ before c after, model.lastFirst = before ++ c :: after ∧ (∀ d ∈ before, d.Valid mode) ∧ ¬c.Valid mode ∧
      ∃ met rest, findings mode c = met.map .warning ++ .defect f :: rest ∧
        (model.validate mode).events = Finding.warned (before.flatMap (·.warnings) ++ met) := by
  have first : (model.lastFirst.flatMap (defects mode)).head? = some f := by
    rw [Command.result_validate] at h
    cases hdefects : model.lastFirst.flatMap (defects mode) with
    | nil => rw [hdefects] at h; cases h
    | cons g ds => rw [hdefects] at h; cases h; rfl
  obtain ⟨before, c, after, horder, hbefore, hf⟩ := head?_flatMap_eq_some.mp first
  have hvalid : ∀ d ∈ before, d.Valid mode := fun d hd => defects_eq_nil.mp (hbefore d hd)
  have hinvalid : ¬c.Valid mode := by
    intro hc
    rw [defects_eq_nil.mpr hc] at hf
    cases hf
  obtain ⟨met, rest, hsplit, hheed⟩ := heed_findings after hvalid hf
  refine ⟨before, c, after, horder, hvalid, hinvalid, met, rest, hsplit, ?_⟩
  rw [Command.validate_eq_heed, horder, hheed]

/-- Validation accepts a model if each of its commands is valid, and otherwise reports the first defect, where a command
    comes before those below it and the last subcommand with all below it before the others. It has then warned of the
    flags that come before the defect; of a model that it accepts, of all flags, however strictly names are judged. -/
theorem validate_reports_first_defect (mode : Strictness) (model : Command) :
    model.validate mode = model.validateFromStack mode ∧
      ((model.validate mode).result = .ok () ↔ ∀ node ∈ model.nodes, node.command.Valid mode) ∧
      ((model.validate mode).result = .ok () →
        (model.validate mode).events = Finding.warned (model.lastFirst.flatMap (·.warnings))) ∧
      (∀ f, (model.validate mode).result = .error f →
        ∃ before c after, model.lastFirst = before ++ c :: after ∧ (∀ d ∈ before, d.Valid mode) ∧ ¬c.Valid mode ∧
          ∃ met rest, findings mode c = met.map .warning ++ .defect f :: rest ∧
            (model.validate mode).events = Finding.warned (before.flatMap (·.warnings) ++ met)) ∧
      ((model.validate .strict).result = .ok () → (model.validate .lenient).result = .ok () →
        (model.validate .strict).events = (model.validate .lenient).events) := by
  have accepted : ∀ mode, (model.validate mode).result = .ok () →
      (model.validate mode).events = Finding.warned (model.lastFirst.flatMap (·.warnings)) := fun mode h => by
    rw [validate_of_valid (Command.validate_eq_ok.mp h)]
  refine ⟨Command.validate_eq_fromStack mode model, Command.validate_eq_ok, accepted mode, fun f => validate_of_error, ?_⟩
  intro hstrict hlenient
  rw [accepted _ hstrict, accepted _ hlenient]

/-- A command with a flag that offers values. -/
def alone : Command where
  name := "demo".toList
  options := [(CommandOption.flag ["-q".toList]).withCandidates ["x".toList]]

/-- The same command above two others, of which the first has an option without a name between two flags. -/
def above : Command :=
  { alone with
    subcommands := [
      { name := "one".toList
        options := [(CommandOption.flag ["-a".toList]).withFiles, .argument [],
          (CommandOption.flag ["-z".toList]).withFiles] },
      { name := "two".toList, options := [(CommandOption.flag ["-b".toList]).withFiles] }] }

theorem validate_reports_first_defect_above :
    ((alone.validate .strict).result = .ok () ∧ (alone.validate .lenient).result = .ok () ∧
      (alone.validate .strict).events = (alone.validate .lenient).events) ∧
    (above.validate .strict).result = .error (.undeclaredNames "one".toList) ∧
      (above.validate .strict).events.length = 3 ∧
      ∃ before c after, above.lastFirst = before ++ c :: after ∧ (∀ d ∈ before, d.Valid .strict) ∧ ¬c.Valid .strict ∧
        ∃ met rest, findings .strict c = met.map .warning ++ .defect (.undeclaredNames "one".toList) :: rest ∧
          (above.validate .strict).events = Finding.warned (before.flatMap (·.warnings) ++ met) := by
  have strict : (alone.validate .strict).result = .ok () := rfl
  have lenient : (alone.validate .lenient).result = .ok () := rfl
  have failed : (above.validate .strict).result = .error (.undeclaredNames "one".toList) := rfl
  obtain ⟨-, -, -, -, same⟩ := validate_reports_first_defect .strict alone
  obtain ⟨-, -, -, first, -⟩ := validate_reports_first_defect .strict above
  exact ⟨⟨strict, lenient, same strict lenient⟩, failed, rfl, first _ failed⟩

end Validation
end ShellCompletion

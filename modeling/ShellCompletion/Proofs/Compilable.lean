import ShellCompletion.Proofs.Rejection
import ShellCompletion.Proofs.Validity
import ShellCompletion.Tool.Generate

/-! Valid models can be compiled. Validation asks for at least what a script needs, so that nothing but a name that
    looks like an option keeps a valid model from having a script, and only lenient validation lets such a name pass. -/

namespace ShellCompletion

/-! ### Commands -/

theorem Command.Valid.flawless {mode : Validation.Strictness} {c : Command} (h : c.Valid mode) : c.Flawless where
  name := h.name
  subcommands_nodup := h.subcommands_nodup
  names_ne_nil o ho := (h.options o ho).names_ne_nil
  names o ho name hname := Validation.isWord_of_isOptionName ((h.options o ho).names name hname)
  names_nodup := h.names_nodup
  candidates o ho := (h.options o ho).candidates

variable {mode : Validation.Strictness} {c : Command}

theorem flawless_of_validate (h : (c.validate mode).result = .ok ()) : ∀ node ∈ c.nodes, node.command.Flawless :=
  fun node hnode => (Command.validate_eq_ok.mp h node hnode).flawless

theorem regular_of_validate (h : (c.validate .strict).result = .ok ()) : Validation.isRegularName c.name = true :=
  (Command.validate_eq_ok.mp h _ c.root_mem_nodes).regular rfl

/-! ### Aliases and file names -/

namespace Script

theorem isCommandWord_append {name ending : Text} (hname : isCommandWord name = true)
    (hending : ending.hasSpace = false) : isCommandWord (name ++ ending) = true := by
  obtain ⟨⟨hne, hspace⟩, hdash⟩ := isCommandWord_iff.mp hname
  obtain ⟨d, name, rfl⟩ := List.exists_cons_of_ne_nil hne
  rw [isCommandWord_iff]
  refine ⟨⟨List.cons_ne_nil _ _, ?_⟩, hdash⟩
  rw [Text.hasSpace, List.any_append, ← Text.hasSpace, ← Text.hasSpace, hspace, hending]
  rfl

end Script

namespace Validation

theorem isRegularName_iff {name : Text} :
    isRegularName name = true ↔ ∃ d t, name = d :: t ∧ d.isAlphanum = true ∧
      ∀ e ∈ t, e.isAlphanum = true ∨ e ∈ ['.', '_', '+', '-'] := by
  cases name <;> simp [isRegularName]

theorem head?_of_isRegularName {name : Text} (h : isRegularName name = true) : name.head? ≠ some '-' := by
  obtain ⟨d, t, rfl, hd, -⟩ := isRegularName_iff.mp h
  rintro ⟨⟩
  cases hd

end Validation

namespace Tool.Generate
open Script Validation

/-- The usual aliases are usable if the name itself is, since they only add an ending to it. -/
theorem aliasesUsable_registered {g : Generate} {name : Text} :
    AliasesUsable (g.registered name) ↔ isCommandWord name = true ∧ ∀ a ∈ g.aliases, isCommandWord a = true := by
  rw [aliasesUsable_iff, aliasDefects_eq_nil, registered, List.forall_mem_append, List.forall_mem_cons]
  constructor
  · rintro ⟨-, ⟨hname, -⟩, haliases⟩
    exact ⟨hname, haliases⟩
  · rintro ⟨hname, haliases⟩
    refine ⟨by simp, ⟨hname, ?_⟩, haliases⟩
    simp only [List.forall_mem_cons]
    exact ⟨isCommandWord_append hname rfl, isCommandWord_append hname rfl, nofun⟩

theorem isFileName_of_isRegularName {name : Text} (h : isRegularName name = true) : isFileName name = true := by
  obtain ⟨d, t, rfl, hd, ht⟩ := isRegularName_iff.mp h
  have first : d ≠ '.' := by
    rintro rfl
    cases hd
  have none : ∀ e ∈ d :: t, ¬(e = '/' ∨ e = '\\') := by
    have all : ∀ e ∈ d :: t, e.isAlphanum = true ∨ e ∈ ['.', '_', '+', '-'] :=
      List.forall_mem_cons.mpr ⟨Or.inl hd, ht⟩
    rintro e he (rfl | rfl) <;> exact absurd (all _ he) (by decide)
  have any : (d :: t).any (fun e => e == '/' || e == '\\') = false := by
    simpa using none
  simp [isFileName, first, any]

theorem exists_target {g : Generate} {name : Text} (h : isFileName name = true) : ∃ target, g.target name = .ok target := by
  have checked : checkFileName name = .ok () := if_pos h
  unfold target
  rw [checked]
  cases g.script.isNone || g.launcher <;> exact ⟨_, rfl⟩

theorem exists_script_iff {g : Generate} {banner : Text} (hflawless : ∀ node ∈ c.nodes, node.command.Flawless)
    (haliases : g.aliases = []) :
    (∃ script, (Script.generate (g.registered c.name) c banner).result = .ok script) ↔ c.name.head? ≠ some '-' := by
  have hname : IsWord c.name := (hflawless _ c.root_mem_nodes).name
  rw [exists_generate_eq_ok, aliasesUsable_registered, haliases, isCommandWord_iff]
  exact ⟨fun h => h.1.1.2, fun h => ⟨⟨⟨hname, h⟩, nofun⟩, hflawless⟩⟩

/-- A strictly valid model has a script under its usual aliases, and a path to write it to, whatever is asked for. A
    leniently valid model has a function for each command, and a script unless its name begins like an option. -/
theorem valid_models_compile (c : Command) :
    ((c.validate .strict).result = .ok () → ∀ (g : Generate) (banner : Text),
      (g.aliases = [] → ∃ script, (Script.generate (g.registered c.name) c banner).result = .ok script) ∧
      ∃ target, g.target c.name = .ok target) ∧
    ((c.validate .lenient).result = .ok () →
      (∀ stem, ∃ functions, (CompletionFunction.ofTree stem c).result = .ok functions) ∧
      ∀ (g : Generate) (banner : Text), g.aliases = [] →
        ((∃ script, (Script.generate (g.registered c.name) c banner).result = .ok script) ↔
          c.name.head? ≠ some '-')) := by
  constructor
  · intro hvalid g banner
    have hregular := regular_of_validate hvalid
    refine ⟨fun haliases => ?_, exists_target (isFileName_of_isRegularName hregular)⟩
    exact (exists_script_iff (flawless_of_validate hvalid) haliases).mpr (head?_of_isRegularName hregular)
  · intro hvalid
    have hflawless := flawless_of_validate hvalid
    refine ⟨fun stem => ?_, fun g banner haliases => exists_script_iff hflawless haliases⟩
    exact ⟨_, CompletionFunction.ofTree_eq_ok.mpr ⟨Command.forall_flawless.mp hflawless, rfl⟩⟩

/-- A strictly valid model. -/
def regular : Command where
  name := "demo".toList
  options := [(CommandOption.argument ["-o".toList]).withCandidates ["a".toList]]
  subcommands := [{ name := "a.b+c".toList }]

/-- A leniently valid model whose name begins like an option. -/
def dashed : Command where
  name := "-x".toList

theorem valid_models_compile_sample :
    (regular.validate .strict).result = .ok () ∧ (dashed.validate .lenient).result = .ok () ∧
      ∀ banner, (∃ script,
        (Script.generate ({ model := [] : Generate }.registered regular.name) regular banner).result = .ok script) ∧
      ¬∃ script, (Script.generate ({ model := [] : Generate }.registered dashed.name) dashed banner).result =
        .ok script := by
  have strict := (valid_models_compile regular).1 rfl
  have lenient := (valid_models_compile dashed).2 rfl
  refine ⟨rfl, rfl, fun banner => ⟨(strict { model := [] } banner).1 rfl, fun h => ?_⟩⟩
  exact (lenient.2 { model := [] } banner rfl).mp h rfl

end Tool.Generate
end ShellCompletion

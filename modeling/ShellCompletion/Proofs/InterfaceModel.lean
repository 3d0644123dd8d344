import ShellCompletion.Interface.Model
import ShellCompletion.Proofs.Warnings

/-! The model of a command line interface. It has a command for each command of the completed interface that is not
    hidden, itself or through a command between the root and it, and an option for each argument of such a command that
    is neither hidden nor given by its position. The root is there to be completed, hidden or not. -/

namespace ShellCompletion

/-! ### Options -/

/-- An argument that the model has an option for. -/
def Argument.isShown (a : Argument) : Bool := !a.isPositional && !a.isHidden

/-- What the option of an argument says. -/
structure CommandOption.Mirrors (o : CommandOption) (a : Argument) : Prop where
  names : o.names = a.names
  takesArgument : o.takesArgument = a.action.takesValue
  candidates : o.candidates = if a.action.takesValue = true ∧ a.shownValues ≠ [] then some a.shownValues else none
  fileValued : o.fileValued = (a.action.takesValue && a.shownValues.isEmpty && a.hint.isFile)
  description : o.description = a.help

/-- An option says nothing of a value that it does not take, and of a value it says at most one thing. -/
structure CommandOption.Coherent (o : CommandOption) : Prop where
  flag : o.takesArgument = false → o.candidates = none ∧ o.fileValued = false
  value : o.candidates = none ∨ o.fileValued = false

theorem CommandOption.Mirrors.coherent {o : CommandOption} {a : Argument} (h : o.Mirrors a) : o.Coherent where
  flag hflag := by
    have htakes : a.action.takesValue = false := h.takesArgument.symm.trans hflag
    rw [h.candidates, h.fileValued, htakes]
    exact ⟨rfl, rfl⟩
  value := by
    rw [h.candidates, h.fileValued]
    by_cases hvalues : a.shownValues = []
    · exact Or.inl (if_neg fun hboth => hboth.2 hvalues)
    · exact Or.inr (by simp [hvalues])

theorem Command.warnings_eq_nil {c : Command} (h : ∀ o ∈ c.options, o.Coherent) : c.warnings = [] := by
  refine List.flatMap_eq_nil_iff.mpr fun o ho => ?_
  cases htakes : o.takesArgument with
  | true => rfl
  | false =>
    obtain ⟨hcandidates, hfiles⟩ := (h o ho).flag htakes
    rw [if_neg Bool.false_ne_true, Validation.flagWarnings, hcandidates, hfiles]
    rfl

namespace Argument

theorem toOption_eq (a : Argument) :
    a.toOption =
      { names := a.names
        takesArgument := a.action.takesValue
        candidates := if a.action.takesValue = true ∧ a.shownValues ≠ [] then some a.shownValues else none
        fileValued := a.action.takesValue && a.shownValues.isEmpty && a.hint.isFile
        description := a.help } := by
  unfold toOption
  cases a.action.takesValue with
  | false => cases a.help <;> rfl
  | true =>
    cases a.shownValues with
    | nil => cases a.hint.isFile <;> cases a.help <;> rfl
    | cons value values => cases a.help <;> rfl

theorem mirrors_toOption (a : Argument) : a.toOption.Mirrors a := by
  rw [toOption_eq]
  exact ⟨rfl, rfl, rfl, rfl, rfl⟩

theorem option?_eq (a : Argument) : a.option? = if a.isShown then some a.toOption else none := by
  unfold option? isShown
  cases a.isPositional <;> cases a.isHidden <;> rfl

/-- An argument that does not go by its position has a name. -/
theorem names_ne_nil {a : Argument} (h : a.isShown = true) : a.names ≠ [] := by
  obtain ⟨hnamed, -⟩ := Bool.and_eq_true_iff.mp h
  intro hnil
  obtain ⟨hshort, hlong⟩ := List.append_eq_nil_iff.mp hnil
  have noShort : a.short = none := by
    cases hs : a.short with
    | none => rfl
    | some c => simp [shortNames, hs] at hshort
  have noLong : a.long = none := by
    cases hl : a.long with
    | none => rfl
    | some name => simp [longNames, hl] at hlong
  simp [isPositional, noShort, noLong] at hnamed

theorem filterMap_option? (arguments : List Argument) :
    arguments.filterMap option? = (arguments.filter isShown).map toOption := by
  rw [funext option?_eq, ← List.filterMap_filter, List.filterMap_eq_map']

theorem forall₂_options (arguments : List Argument) :
    List.Forall₂ CommandOption.Mirrors (arguments.filterMap option?) (arguments.filter isShown) := by
  rw [filterMap_option?, List.forall₂_map_left_iff, List.forall₂_same]
  exact fun a _ => a.mirrors_toOption

end Argument

/-- What the command of a model says of a command of an interface. -/
structure Command.Mirrors (command : Command) (c : Declaration) : Prop where
  name : command.name = c.name
  description : command.description = c.about
  options : List.Forall₂ CommandOption.Mirrors command.options (c.arguments.filter (·.isShown))

namespace Interface

/-! ### Chains -/

mutual

/-- Each command of an interface with all above it, from the root down: root first and in order of declaration. -/
def chains : Interface → List (List Declaration)
  | ⟨c, subs⟩ => [c] :: (chainsAll subs).map (c :: ·)

def chainsAll : List Interface → List (List Declaration)
  | [] => []
  | i :: is => i.chains ++ chainsAll is

end

/-- Is no command below the root hidden? -/
def isShownBelowRoot (chain : List Declaration) : Bool := chain.tail.all (!·.isHidden)

theorem chainsAll_append (is js : List Interface) : chainsAll (is ++ js) = chainsAll is ++ chainsAll js := by
  induction is with
  | nil => rfl
  | cons i is ih => rw [List.cons_append, chainsAll, chainsAll, ih, List.append_assoc]

theorem eq_cons_of_mem_chains {i : Interface} {chain : List Declaration} (h : chain ∈ i.chains) :
    ∃ below, chain = i.command :: below := by
  obtain ⟨c, subs⟩ := i
  rw [chains, List.mem_cons] at h
  rcases h with rfl | h
  · exact ⟨[], rfl⟩
  · obtain ⟨below, -, rfl⟩ := List.mem_map.mp h
    exact ⟨below, rfl⟩

/-! ### The model -/

mutual

/-- The model without the log of its making. -/
def mirror : Interface → Command
  | ⟨c, subs⟩ =>
    { name := c.name
      description := c.about
      options := c.arguments.filterMap Argument.option?
      subcommands := mirrorAll subs }

def mirrorAll : List Interface → List Command
  | [] => []
  | i :: is => if i.command.isHidden then mirrorAll is else mirror i :: mirrorAll is

end

mutual

theorem result_toModel : ∀ i : Interface, i.toModel.result = .ok i.mirror
  | ⟨c, subs⟩ => by
    rw [toModel, mirror, Logged.result_bind, result_toModels subs]
    rfl

theorem result_toModels : ∀ is : List Interface, (toModels is).result = .ok (mirrorAll is)
  | [] => rfl
  | i :: is => by
    rw [toModels, mirrorAll]
    cases i.command.isHidden with
    | true => exact result_toModels is
    | false =>
      show (i.toModel >>= fun model => toModels is >>= fun models => pure (model :: models)).result = _
      rw [Logged.result_bind, result_toModel i, ok_bind, Logged.result_bind, result_toModels is]
      rfl

end

/-- A node stands for the last command of a chain. -/
structure MirrorsBelow (above : List Text) (node : Command.Node) (chain : List Declaration) : Prop where
  path : node.path = above ++ chain.map (·.name)
  command : ∃ c, chain.getLast? = some c ∧ node.command.Mirrors c

theorem MirrorsBelow.cons {above : List Text} {node : Command.Node} {chain : List Declaration} (c : Declaration)
    (h : MirrorsBelow (above ++ [c.name]) node chain) : MirrorsBelow above node (c :: chain) := by
  obtain ⟨hpath, d, hlast, hmirrors⟩ := h
  refine ⟨?_, d, ?_, hmirrors⟩
  · rw [hpath, List.map_cons, List.append_assoc, List.singleton_append]
  · rw [List.getLast?_cons, hlast]
    rfl

/-- Below the root a chain is shown if none of its commands is hidden: with its first command, all chains from there
    are hidden. -/
theorem filter_chains (i : Interface) :
    i.chains.filter (·.all (!·.isHidden)) =
      if i.command.isHidden then [] else i.chains.filter isShownBelowRoot := by
  cases hhidden : i.command.isHidden with
  | true =>
    rw [if_pos rfl, List.filter_eq_nil_iff]
    intro chain hchain
    obtain ⟨below, rfl⟩ := eq_cons_of_mem_chains hchain
    simp [hhidden]
  | false =>
    rw [if_neg Bool.false_ne_true]
    refine List.filter_congr fun chain hchain => ?_
    obtain ⟨below, rfl⟩ := eq_cons_of_mem_chains hchain
    simp [isShownBelowRoot, hhidden]

mutual

theorem forall₂_nodesBelow : ∀ (i : Interface) {above : List Text},
    List.Forall₂ (MirrorsBelow above) (i.mirror.nodesBelow above) (i.chains.filter isShownBelowRoot)
  | ⟨c, subs⟩, above => by
    have root : MirrorsBelow above ⟨above ++ [c.name], mirror ⟨c, subs⟩⟩ [c] :=
      ⟨rfl, c, rfl, rfl, rfl, Argument.forall₂_options c.arguments⟩
    have below : ((chainsAll subs).map (c :: ·)).filter isShownBelowRoot =
        ((chainsAll subs).filter (·.all (!·.isHidden))).map (c :: ·) := by
      rw [List.filter_map]
      rfl
    rw [mirror, Command.nodesBelow, chains, List.filter_cons_of_pos rfl, below]
    refine .cons root (List.forall₂_map_right_iff.mpr ?_)
    exact (forall₂_nodesBelowAll subs).imp fun _ _ h => h.cons c

theorem forall₂_nodesBelowAll : ∀ (is : List Interface) {above : List Text},
    List.Forall₂ (MirrorsBelow above) (Command.nodesBelowAll above (mirrorAll is))
      ((chainsAll is).filter (·.all (!·.isHidden)))
  | [], above => .nil
  | i :: is, above => by
    rw [mirrorAll, chainsAll, List.filter_append, filter_chains]
    cases i.command.isHidden with
    | true => exact forall₂_nodesBelowAll is
    | false => exact List.rel_append (forall₂_nodesBelow i) (forall₂_nodesBelowAll is)

end

/-! ### What is inherited -/

/-- Declarations from the root down, each with all its arguments. -/
def Inherited.completeAll (inherited : Inherited) : List Declaration → List Declaration
  | [] => []
  | c :: cs => inherited.complete c :: (inherited.below c).completeAll cs

mutual

/-- Every declared command is there in the completed interface, below the same commands. -/
theorem completeAll_mem_chains : ∀ (i : Interface) {inherited : Inherited} {chain : List Declaration},
    chain ∈ i.chains → inherited.completeAll chain ∈ (i.completedBelow inherited).chains
  | ⟨c, subs⟩, inherited, chain, h => by
    rw [chains, List.mem_cons] at h
    rw [completedBelow, chains, List.mem_cons]
    rcases h with rfl | h
    · exact Or.inl rfl
    · obtain ⟨rest, hrest, rfl⟩ := List.mem_map.mp h
      refine Or.inr (List.mem_map.mpr ⟨_, ?_, rfl⟩)
      rw [chainsAll_append]
      exact List.mem_append_left _ (completeAll_mem_chainsAll subs hrest)

theorem completeAll_mem_chainsAll : ∀ (is : List Interface) {inherited : Inherited} {chain : List Declaration},
    chain ∈ chainsAll is → inherited.completeAll chain ∈ chainsAll (allCompletedBelow inherited is)
  | [], inherited, chain, h => by cases h
  | i :: is, inherited, chain, h => by
    rw [chainsAll, List.mem_append] at h
    rw [allCompletedBelow, chainsAll, List.mem_append]
    rcases h with h | h
    · exact Or.inl (completeAll_mem_chains i h)
    · exact Or.inr (completeAll_mem_chainsAll is h)

end

namespace Inherited
variable {inherited : Inherited} {a : Argument} {c : Declaration}

/-- To have all its arguments changes nothing else of a declaration. -/
theorem map_completeAll {β : Type} {g : Declaration → β}
    (h : ∀ (inherited : Inherited) (c : Declaration), g (inherited.complete c) = g c) (cs : List Declaration) :
    (inherited.completeAll cs).map g = cs.map g := by
  induction cs generalizing inherited with
  | nil => rfl
  | cons c cs ih => rw [completeAll, List.map_cons, List.map_cons, h, ih]

theorem isShownBelowRoot_completeAll (cs : List Declaration) :
    isShownBelowRoot (inherited.completeAll cs) = isShownBelowRoot cs := by
  cases cs with
  | nil => rfl
  | cons c cs =>
    have hidden : ((inherited.below c).completeAll cs).map (·.isHidden) = cs.map (·.isHidden) :=
      map_completeAll (fun _ _ => rfl) cs
    have shown := congrArg (List.all · (!·)) hidden
    rw [List.all_map, List.all_map] at shown
    exact shown

theorem mem_complete (ha : a ∈ inherited.arguments c) : a ∈ (inherited.complete c).arguments :=
  List.mem_append_left _ (List.mem_append_left _ ha)

theorem mem_below_globals (ha : a ∈ inherited.arguments c) (hglobal : a.isGlobal = true) :
    a ∈ (inherited.below c).globals :=
  List.mem_filter.mpr ⟨ha, hglobal⟩

/-- A command takes over an argument unless it has one of its own with the same id. -/
theorem mem_arguments_of_global (ha : a ∈ inherited.globals) (hfree : ∀ b ∈ c.arguments, b.id ≠ a.id) :
    a ∈ inherited.arguments c :=
  List.mem_append_right _ (List.mem_filter.mpr ⟨ha, by simpa using hfree⟩)

/-- A global argument is handed down from command to command. -/
theorem mem_of_global (hglobal : a.isGlobal = true) {cs : List Declaration} (ha : a ∈ inherited.globals)
    (hfree : ∀ d ∈ cs, ∀ b ∈ d.arguments, b.id ≠ a.id) : ∀ d ∈ inherited.completeAll cs, a ∈ d.arguments := by
  induction cs generalizing inherited with
  | nil => exact fun d hd => by cases hd
  | cons c cs ih =>
    obtain ⟨hc, hcs⟩ := List.forall_mem_cons.mp hfree
    have own : a ∈ inherited.arguments c := mem_arguments_of_global ha hc
    exact List.forall_mem_cons.mpr ⟨mem_complete own, ih (mem_below_globals own hglobal) hcs⟩

/-- The last of several commands has a global argument of any of them. -/
theorem last_has_global (inherited : Inherited) (ha : a ∈ c.arguments) (hglobal : a.isGlobal = true) (above : List Declaration)
    {below : List Declaration} (hfree : ∀ d ∈ below, ∀ b ∈ d.arguments, b.id ≠ a.id) :
    ∃ d, (inherited.completeAll (above ++ c :: below)).getLast? = some d ∧ a ∈ d.arguments := by
  induction above generalizing inherited with
  | nil =>
    have own : a ∈ inherited.arguments c := List.mem_append_left _ ha
    have all := mem_of_global hglobal (mem_below_globals own hglobal) hfree
    rw [List.nil_append, completeAll, List.getLast?_cons]
    refine ⟨_, rfl, ?_⟩
    cases hlast : ((inherited.below c).completeAll below).getLast? with
    | none => exact mem_complete own
    | some d => exact all d (List.mem_of_getLast? hlast)
  | cons b above ih =>
    obtain ⟨d, hlast, hd⟩ := ih (inherited.below b)
    refine ⟨d, ?_, hd⟩
    rw [List.cons_append, completeAll, List.getLast?_cons, hlast]
    rfl

end Inherited

/-! ### Models of interfaces -/

/-- An interface has a model. The model has a node for each chain of the completed interface on which no command below
    the root is hidden, in the same order; a node has an option for each argument of the last command of its chain that
    is shown, in the same order, and every option has a name and is coherent. A global argument that is shown has an
    option in every command below its own, up to one with an argument of the same id. Validation never warns of such a
    model. -/
theorem model_mirrors_interface (i : Interface) :
    ∃ model, i.model.result = .ok model ∧
      model.nodes.map (·.path) = (i.completed.chains.filter isShownBelowRoot).map (·.map (·.name)) ∧
      List.Forall₂ (fun node chain => ∃ c, chain.getLast? = some c ∧ node.command.Mirrors c) model.nodes
        (i.completed.chains.filter isShownBelowRoot) ∧
      (∀ node ∈ model.nodes, ∀ o ∈ node.command.options, o.names ≠ [] ∧ o.Coherent) ∧
      (∀ above c below, above ++ c :: below ∈ i.chains → isShownBelowRoot (above ++ c :: below) = true →
        ∀ a ∈ c.arguments, a.isGlobal = true → a.isShown = true → (∀ d ∈ below, ∀ b ∈ d.arguments, b.id ≠ a.id) →
          ∃ node ∈ model.nodes, node.path = (above ++ c :: below).map (·.name) ∧
            ∃ o ∈ node.command.options, o.Mirrors a) ∧
      ∀ mode, (model.validate mode).events = [] := by
  have mirrored : List.Forall₂ (MirrorsBelow []) i.completed.mirror.nodes (i.completed.chains.filter isShownBelowRoot) :=
    forall₂_nodesBelow i.completed
  have options : ∀ node ∈ i.completed.mirror.nodes, ∀ o ∈ node.command.options, o.names ≠ [] ∧ o.Coherent := by
    intro node hnode o ho
    obtain ⟨chain, -, -, c, -, hc⟩ := exists_of_forall₂ mirrored hnode
    obtain ⟨a, ha, hoa⟩ := exists_of_forall₂ hc.options ho
    exact ⟨hoa.names ▸ Argument.names_ne_nil (List.mem_filter.mp ha).2, hoa.coherent⟩
  refine ⟨i.completed.mirror, result_toModel i.completed, map_eq_of_forall₂ (fun _ _ h => h.path) mirrored,
    mirrored.imp fun _ _ h => h.command, options, ?_, ?_⟩
  · intro above c below hchain hshown a ha hglobal hisShown hfree
    have hmem : Inherited.completeAll {} (above ++ c :: below) ∈ i.completed.chains.filter isShownBelowRoot := by
      rw [List.mem_filter, Inherited.isShownBelowRoot_completeAll]
      exact ⟨completeAll_mem_chains i hchain, hshown⟩
    obtain ⟨node, hnode, hpath, d, hlast, hd⟩ := exists_of_forall₂ mirrored.flip hmem
    obtain ⟨d', hlast', had⟩ := Inherited.last_has_global {} ha hglobal above hfree
    obtain rfl : d = d' := Option.some.inj (hlast.symm.trans hlast')
    obtain ⟨o, ho, hoa⟩ := exists_of_forall₂ hd.options.flip (List.mem_filter.mpr ⟨had, hisShown⟩)
    refine ⟨node, hnode, ?_, o, ho, hoa⟩
    rw [hpath, List.nil_append, Inherited.map_completeAll fun _ _ => rfl]
  · intro mode
    refine Validation.events_validate_eq_nil (fun node hnode => ?_) mode
    exact Command.warnings_eq_nil fun o ho => (options node hnode o ho).2

/-- A global flag. -/
def verbose : Argument := { id := "verbose".toList, short := some 'v', action := .count, isGlobal := true }

/-- A command with a choice of two values. -/
def run : Declaration where
  name := "run".toList
  arguments := [
    { id := "mode".toList
      long := some "mode".toList
      values := [⟨"fast".toList, false⟩, ⟨"slow".toList, false⟩] }]

/-- An interface with an argument of each kind, and with a hidden command above one that is not. -/
def sample : Interface where
  command :=
    { name := "tool".toList
      arguments := [{ id := "input".toList }, { id := "secret".toList, long := some "secret".toList, isHidden := true },
        verbose] }
  subcommands := [
    ⟨{ name := "internal".toList, isHidden := true }, [⟨{ name := "deep".toList }, []⟩]⟩,
    ⟨run, []⟩]

theorem model_mirrors_interface_sample :
    ∃ model, sample.model.result = .ok model ∧
      model.nodes.map (·.path) = [["tool".toList], ["tool".toList, "run".toList], ["tool".toList, "help".toList],
        ["tool".toList, "help".toList, "run".toList], ["tool".toList, "help".toList, "help".toList]] ∧
      (∃ node ∈ model.nodes, node.path = ["tool".toList, "run".toList] ∧
        ∃ o ∈ node.command.options, o.names = [['-', 'v']]) ∧
      (model.validate .strict).events = [] := by
  obtain ⟨model, hmodel, hpaths, -, -, globals, hevents⟩ := model_mirrors_interface sample
  refine ⟨model, hmodel, hpaths.trans (by decide), ?_, hevents .strict⟩
  obtain ⟨node, hnode, hpath, o, ho, hoa⟩ :=
    globals [] sample.command [run] (by decide) rfl verbose (by decide) rfl rfl (by decide)
  exact ⟨node, hnode, hpath, o, ho, hoa.names⟩

/-- A hidden command and nothing else. -/
def hiddenRoot : Interface := ⟨{ name := "tool".toList, isHidden := true }, []⟩

/-- A hidden root is in the model, although no chain is free of hidden commands. -/
theorem hidden_root_is_mirrored :
    ∃ model, hiddenRoot.model.result = .ok model ∧ model.nodes.map (·.path) = [["tool".toList]] ∧
      (hiddenRoot.completed.chains.filter (·.all (!·.isHidden))).map (·.map (·.name)) = [] :=
  ⟨_, rfl, rfl, rfl⟩

end Interface
end ShellCompletion

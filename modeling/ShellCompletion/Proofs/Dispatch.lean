import ShellCompletion.Proofs.Classification
import ShellCompletion.Proofs.Identifier

/-! What a command line is completed with. The entry point follows flat tables keyed by function names, and a
    function looks the word before the cursor up in its own tables. Both agree with the tree: the names of all
    commands are distinct, so following the tables is the descent in the tree, and the aliases of a command are
    distinct, so its tables find the policy of the option that has the word for an alias. -/

namespace ShellCompletion

/-- What was typed: the words, the first of which is the command, and the index of the word at the cursor. -/
structure CommandLine where
  words : List Text
  cursor : Nat
  cursor_pos : 1 ≤ cursor

namespace CommandLine

/-- The word at an index; a word that was not typed is empty. -/
def word (line : CommandLine) (i : Nat) : Text := line.words.getD i []

/-- The words strictly between the command and the cursor. -/
def between (line : CommandLine) : List Text := (List.range' 1 (line.cursor - 1)).map line.word

/-- The word before the cursor. -/
def previous (line : CommandLine) : Text := line.word (line.cursor - 1)

end CommandLine

/-- What is offered for the word at the cursor: a value, or one of some words. -/
inductive Offer where
  | value (policy : Policy)
  | words (words : List Text)
deriving DecidableEq, Repr

/-! ### The tables -/

/-- The function that a word leads to: that of the first target with its name, in the first transition from the
    function. -/
def EntryFunction.next? (e : EntryFunction) (function word : Text) : Option Text :=
  (e.transitions.find? (·.source == function)).bind fun t =>
    (t.targets.find? (·.name == word)).map (·.identifier)

/-- The function that words lead to from a function, up to the first word that leads nowhere. -/
def EntryFunction.follow (e : EntryFunction) (function : Text) : List Text → Text
  | [] => function
  | word :: words =>
    match e.next? function word with
    | some next => e.follow next words
    | none => function

/-- What a function offers after a word: the first option with a value that has the word for an alias is
    completed, otherwise all candidates are offered. -/
def CompletionFunction.offer (f : CompletionFunction) (previous : Text) : Offer :=
  match f.options.argumentOptions.find? (·.names.contains previous) with
  | some o => .value o.policy
  | none => .words f.candidates

/-! ### The tree -/

namespace Command

/-- What a command offers after a word: the value of the option of that name if it takes one, otherwise its
    flags, its options with a value and its subcommands. -/
def offer (c : Command) (previous : Text) : Offer :=
  match (c.option? previous).bind CommandOption.policy with
  | some policy => .value policy
  | none => .words (c.flagAliases ++ c.argumentAliases ++ c.subcommandNames)

end Command

/-! ### Offers -/

namespace CompletionFunction
variable {stem : Text} {node : Command.Node}

theorem candidates_atNode : (atNode stem node).candidates =
    node.command.flagAliases ++ node.command.argumentAliases ++ node.command.subcommandNames := by
  rw [candidates, subcommandNames_atNode]
  rfl

/-- A function offers what its command offers. -/
theorem offer_atNode (hc : node.command.Completable) (previous : Text) :
    (atNode stem node).offer previous = node.command.offer previous := by
  have hpolicy : ((atNode stem node).options.argumentOptions.find? (·.names.contains previous)).map (·.policy) =
      (node.command.option? previous).bind CommandOption.policy := OptionTable.policy?_ofOptions hc.aliases_nodup previous
  unfold offer Command.offer
  rw [← hpolicy, candidates_atNode]
  cases (atNode stem node).options.argumentOptions.find? (·.names.contains previous) <;> rfl

end CompletionFunction

/-! ### Steps and runs -/

/-- The names of the commands' functions tell the commands apart. -/
theorem Command.node_eq_of_identifier {model : Command} (hcommands : ∀ node ∈ model.nodes, node.command.Completable)
    {stem : Text} {node node' : Command.Node} (hnode : node ∈ model.nodes) (hnode' : node' ∈ model.nodes)
    (h : CompletionFunction.identifierOf stem node.path = CompletionFunction.identifierOf stem node'.path) :
    node = node' :=
  List.inj_on_of_nodup_map (nodup_paths_nodes fun n hn => (hcommands n hn).subcommands_nodup) hnode hnode'
    (CompletionFunction.identifierOf_inj h)

namespace Dispatch
open CompletionFunction

variable {model : Command} {node : Command.Node} {aliases : List Text} {stem : Text}

/-- Where functions lead to, if their commands have subcommands. -/
def transitionsOf (functions : List CompletionFunction) : List Transition :=
  (functions.filter (!·.subcommands.isEmpty)).map fun f => ⟨f.identifier, f.subcommands⟩

/-- The first transition from a function is that of the first command of this name with subcommands. -/
theorem find?_transitions_eq (function : Text) :
    (transitionsOf (model.nodes.map (atNode stem))).find? (·.source == function) =
      (model.nodes.find? fun n =>
          !n.command.subcommands.isEmpty && identifierOf stem n.path == function).map fun n =>
        ⟨identifierOf stem n.path, (atNode stem n).subcommands⟩ := by
  simp only [transitionsOf, List.find?_map, List.find?_filter, Option.map_map]
  congr 2
  funext n
  rw [Bool.eq_iff_iff]
  simp [atNode, Command.subcommandNames]

/-- The transition from the function of a node; from that of a leaf there is none. -/
theorem find?_transitions (hcommands : ∀ node ∈ model.nodes, node.command.Completable) (hnode : node ∈ model.nodes) :
    (transitionsOf (model.nodes.map (atNode stem))).find? (·.source == identifierOf stem node.path) =
      if node.command.subcommands.isEmpty then none
      else some ⟨identifierOf stem node.path, (atNode stem node).subcommands⟩ := by
  have unique : ∀ n ∈ model.nodes, (!n.command.subcommands.isEmpty &&
      identifierOf stem n.path == identifierOf stem node.path) = true → n = node := fun n hn h =>
    Command.node_eq_of_identifier hcommands hn hnode (beq_iff_eq.mp (Bool.and_eq_true_iff.mp h).2)
  rw [find?_transitions_eq, find?_eq_of_unique hnode unique]
  cases node.command.subcommands.isEmpty <;> simp

/-- One word leads from the function of a node to that of the subcommand it names, and else nowhere. -/
theorem next?_eq {e : EntryFunction} (he : e.transitions = transitionsOf (model.nodes.map (atNode stem)))
    (hcommands : ∀ node ∈ model.nodes, node.command.Completable) (hnode : node ∈ model.nodes) (word : Text) :
    e.next? (identifierOf stem node.path) word =
      (node.command.subcommand? word).map fun sub => identifierOf stem (node.path ++ [sub.name]) := by
  rw [EntryFunction.next?, he, find?_transitions hcommands hnode]
  by_cases hleaf : node.command.subcommands = []
  · simp [hleaf, Command.subcommand?]
  · rw [if_neg (by simpa using hleaf), Option.bind_some, atNode]
    simp only [Command.subcommand?, Command.subcommandNames, List.find?_map, Option.map_map]
    rfl

/-- Following the tables from the function of a node is descending from the node. -/
theorem follow_eq (hcommands : ∀ node ∈ model.nodes, node.command.Completable) (hnode : node ∈ model.nodes)
    (words : List Text) :
    (Script.entryOf model aliases).follow (identifierOf defaultStem node.path) words =
      identifierOf defaultStem (node.descend words).path := by
  induction words generalizing node with
  | nil => rfl
  | cons word words ih =>
    rw [EntryFunction.follow, next?_eq rfl hcommands hnode, Command.Node.descend.eq_def]
    cases hsub : node.command.subcommand? word with
    | none => simp [hsub]
    | some sub => simpa [hsub] using ih (Command.sub_mem_nodes hnode (Command.mem_of_subcommand? hsub).1)

theorem nodup_identifiers (hcommands : ∀ node ∈ model.nodes, node.command.Completable) :
    (model.nodes.map fun n => identifierOf defaultStem n.path).Nodup := by
  have hpaths := Command.nodup_paths_nodes fun n hn => (hcommands n hn).subcommands_nodup
  have := hpaths.map (fun _ _ h => identifierOf_inj h : Function.Injective (identifierOf defaultStem))
  rwa [List.map_map] at this

/-- One function has the name of the function of a node. -/
theorem filter_functionsOf (hcommands : ∀ node ∈ model.nodes, node.command.Completable) (hnode : node ∈ model.nodes) :
    (Script.functionsOf model).filter (·.identifier == identifierOf defaultStem node.path) =
      [atNode defaultStem node] := by
  have single := filter_key_eq (nodup_identifiers hcommands) hnode
  rw [Script.functionsOf, List.filter_map]
  exact congrArg (List.map (atNode defaultStem)) single

/-- A generated script completes every command line as the model says: following its tables leads to the function
    of the command that the words name in the tree, no other function has that name, and the function offers what
    the command offers. -/
theorem generate_completes {banner script : Text}
    (accepted : (Script.generate aliases model banner).result = .ok script) :
    ∃ functions entry, Script.GeneratedFrom aliases model banner script functions entry ∧
      ∀ line : CommandLine,
        identifierOf? defaultStem (model.reached line.between).path = .ok (entry.follow entry.root line.between) ∧
          ∃ f, functions.filter (·.identifier == entry.follow entry.root line.between) = [f] ∧
            f.path = (model.reached line.between).path ∧
            f.offer line.previous = (model.reached line.between).command.offer line.previous := by
  obtain ⟨functions, entry, generated⟩ := Script.generate_eq_ok_iff_generatedFrom.mp accepted
  obtain ⟨-, hcommands, rfl, rfl, -⟩ := Script.generatedFrom_iff.mp generated
  refine ⟨_, _, generated, fun line => ?_⟩
  have hnode := model.reached_mem_nodes line.between
  have hfollow : (Script.entryOf model aliases.eraseDups).follow (Script.entryOf model aliases.eraseDups).root
      line.between = identifierOf defaultStem (model.reached line.between).path :=
    follow_eq hcommands model.root_mem_nodes line.between
  rw [hfollow]
  refine ⟨identifierOf?_eq_ok ?_, atNode defaultStem (model.reached line.between), ?_, rfl, ?_⟩
  · obtain ⟨more, hpath⟩ := Command.path_of_mem_nodes hnode
    simp [hpath]
  · exact filter_functionsOf hcommands hnode
  · exact offer_atNode (hcommands _ hnode) _

/-- The words `demo it's -m`, and the cursor at an empty word after them. -/
def sampleLine : CommandLine := ⟨["demo".toList, "it's".toList, "-m".toList, []], 3, by decide⟩

/-- The sample offers the candidates of the option, by the function of the upper of the two `it's`. -/
theorem generate_completes_sample :
    ∃ script functions entry, (Script.generate Script.sampleAliases Script.sample []).result = .ok script ∧
      Script.GeneratedFrom Script.sampleAliases Script.sample [] script functions entry ∧
        identifierOf? defaultStem ["demo".toList, "it's".toList] =
          .ok (entry.follow entry.root sampleLine.between) ∧
          ∃ f, functions.filter (·.identifier == entry.follow entry.root sampleLine.between) = [f] ∧
            f.path = ["demo".toList, "it's".toList] ∧
            f.offer sampleLine.previous = .value (.oneOf ["a|b".toList, "#".toList]) := by
  have path : (Script.sample.reached sampleLine.between).path = ["demo".toList, "it's".toList] := rfl
  have offer : (Script.sample.reached sampleLine.between).command.offer sampleLine.previous =
      .value (.oneOf ["a|b".toList, "#".toList]) := rfl
  obtain ⟨script, accepted⟩ := Script.sample_accepted
  obtain ⟨functions, entry, generated, completes⟩ := generate_completes accepted
  rw [← path, ← offer]
  exact ⟨script, functions, entry, accepted, generated, completes sampleLine⟩

end Dispatch
end ShellCompletion

import ShellCompletion.Proofs.Compilable
import ShellCompletion.Proofs.Dispatch

/-! What a strictly valid model offers is never ambiguous. Aliases begin with a minus sign and strictly valid names of
    commands with a letter or digit, so that no subcommand has the name of an alias; and among themselves neither the
    aliases of a command nor the names of its subcommands repeat. Hence a word that leads to a subcommand cannot be
    meant as an option. -/

namespace ShellCompletion

namespace Validation
variable {mode : Strictness} {c : Command} {name : Text}

theorem head?_of_isOptionName (h : isOptionName name = true) : name.head? = some '-' := by
  obtain ⟨dashes, d, rest, rfl, rfl | rfl, -⟩ := isOptionName_iff.mp h <;> rfl

/-- No alias of a valid command is a strictly valid name. -/
theorem notMem_aliases (hc : c.Valid mode) (hname : isRegularName name = true) :
    ∀ o ∈ c.options, name ∉ o.names := fun o ho hmem =>
  head?_of_isRegularName hname (head?_of_isOptionName ((hc.options o ho).names name hmem))

end Validation

namespace Command
variable {model c : Command} {node : Node}

/-- The kinds of words that a command offers. -/
def offeredGroups (c : Command) : List (List Text) := [c.flagAliases, c.argumentAliases, c.subcommandNames]

/-- In a strictly valid model all subcommands of a command have strictly valid names, being commands of the model
    themselves. -/
theorem regular_of_mem_subcommandNames (hvalid : ∀ node ∈ model.nodes, node.command.Valid .strict)
    (hnode : node ∈ model.nodes) {name : Text} (hname : name ∈ node.command.subcommandNames) :
    Validation.isRegularName name = true := by
  obtain ⟨sub, hsub, rfl⟩ := List.mem_map.mp hname
  exact (hvalid _ (sub_mem_nodes hnode hsub)).regular rfl

theorem flatten_offeredGroups (c : Command) :
    c.offeredGroups.flatten = c.flagAliases ++ c.argumentAliases ++ c.subcommandNames := by
  simp [offeredGroups]

theorem nodup_offeredGroups (hc : c.Valid .strict)
    (hsubs : ∀ name ∈ c.subcommandNames, Validation.isRegularName name = true) : c.offeredGroups.flatten.Nodup := by
  rw [flatten_offeredGroups, List.nodup_append]
  refine ⟨c.perm_aliases.nodup_iff.mpr hc.names_nodup, hc.subcommands_nodup, fun a halias b hname hab => ?_⟩
  obtain ⟨o, ho, hmem⟩ := List.mem_flatMap.mp (c.perm_aliases.mem_iff.mp halias)
  exact Validation.notMem_aliases hc (hsubs b hname) o ho (hab ▸ hmem)

end Command

namespace CompletionFunction

/-- A function offers the words of its command, kind after kind, and no word is offered twice. -/
structure OffersApart (f : CompletionFunction) (node : Command.Node) : Prop where
  path : f.path = node.path
  groups : [f.options.flags, f.options.arguments, f.subcommandNames] = node.command.offeredGroups
  candidates : f.candidates = node.command.offeredGroups.flatten
  nodup : f.candidates.Nodup
  disjoint : node.command.offeredGroups.Pairwise List.Disjoint

variable {stem : Text} {model : Command} {node : Command.Node}

theorem offersApart_atNode (hnodup : node.command.offeredGroups.flatten.Nodup) :
    OffersApart (atNode stem node) node := by
  have candidates : (atNode stem node).candidates = node.command.offeredGroups.flatten :=
    candidates_atNode.trans (Command.flatten_offeredGroups node.command).symm
  exact {
    path := rfl
    groups := by rw [subcommandNames_atNode]; rfl
    candidates
    nodup := candidates ▸ hnodup
    disjoint := (List.nodup_flatten.mp hnodup).2 }

/-- The words with which an entry point goes on from a command are the names of its subcommands. -/
theorem isSome_next?_iff {e : EntryFunction} (he : e.transitions = Dispatch.transitionsOf (model.nodes.map (atNode stem)))
    (hcommands : ∀ node ∈ model.nodes, node.command.Completable) (hnode : node ∈ model.nodes) {word : Text} :
    (e.next? (identifierOf stem node.path) word).isSome = true ↔ word ∈ node.command.subcommandNames := by
  rw [Dispatch.next?_eq he hcommands hnode, Option.isSome_map, Command.subcommand?, List.find?_isSome]
  simp [Command.subcommandNames]

/-- The functions of a strictly valid model offer no word twice, neither of one kind nor of two. So a word with which
    their entry point goes on from a command to a subcommand is no alias of that command. -/
theorem offered_words_are_unambiguous (hvalid : (model.validate .strict).result = .ok ()) (stem : Text) :
    ∃ functions, (ofTree stem model).result = .ok functions ∧
      List.Forall₂ OffersApart functions model.nodes ∧
      ∀ aliases, ∃ entry, EntryFunction.ofFunctions model functions aliases = .ok entry ∧
        ∀ node ∈ model.nodes, ∀ word,
          ((entry.next? (identifierOf stem node.path) word).isSome = true ↔ word ∈ node.command.subcommandNames) ∧
          ((entry.next? (identifierOf stem node.path) word).isSome = true →
            ∀ o ∈ node.command.options, word ∉ o.names) := by
  have hcommands : ∀ node ∈ model.nodes, node.command.Valid .strict := Command.validate_eq_ok.mp hvalid
  have hcompletable := Command.forall_flawless.mp (flawless_of_validate hvalid)
  have hnames : ∀ node ∈ model.nodes, ∀ name ∈ node.command.subcommandNames, Validation.isRegularName name = true :=
    fun node hnode name => Command.regular_of_mem_subcommandNames hcommands hnode
  refine ⟨_, ofTree_eq_ok.mpr ⟨hcompletable, rfl⟩, ?_, fun aliases => ?_⟩
  · rw [List.forall₂_map_left_iff, List.forall₂_same]
    exact fun node hnode => offersApart_atNode (Command.nodup_offeredGroups (hcommands node hnode) (hnames node hnode))
  · have named : model.name ≠ [] := (hcompletable _ model.root_mem_nodes).name.ne_nil
    refine ⟨_, Script.ofFunctions_atNode named, fun node hnode word => ⟨isSome_next?_iff rfl hcompletable hnode, ?_⟩⟩
    intro hword
    have hsub : word ∈ node.command.subcommandNames := (isSome_next?_iff rfl hcompletable hnode).mp hword
    exact Validation.notMem_aliases (hcommands node hnode) (hnames node hnode word hsub)

/-- A model whose aliases are names of its subcommands behind minus signs. -/
def lookalike : Command where
  name := "demo".toList
  options := [.flag ["-a".toList, "--a-b".toList], .argument ["-b".toList]]
  subcommands := [
    { name := "a".toList
      options := [.flag ["-a".toList]]
      subcommands := [{ name := "a-b".toList }] },
    { name := "a-b".toList }]

theorem offered_words_are_unambiguous_lookalike :
    (lookalike.validate .strict).result = .ok () ∧
      ∃ functions entry, (ofTree defaultStem lookalike).result = .ok functions ∧
        functions.map (·.candidates) = [["-a".toList, "--a-b".toList, "-b".toList, "a".toList, "a-b".toList],
          ["-a".toList, "a-b".toList], [], []] ∧
        (∀ f ∈ functions, f.candidates.Nodup) ∧
        EntryFunction.ofFunctions lookalike functions [] = .ok entry ∧
        (entry.next? (identifierOf defaultStem ["demo".toList]) "a".toList).isSome = true ∧
        ∀ o ∈ lookalike.options, "a".toList ∉ o.names := by
  have hvalid : (lookalike.validate .strict).result = .ok () := rfl
  obtain ⟨functions, accepted, apart, entries⟩ := offered_words_are_unambiguous hvalid defaultStem
  obtain ⟨entry, made, words⟩ := entries []
  obtain ⟨consumed, distinct⟩ := words _ lookalike.root_mem_nodes "a".toList
  have next := consumed.mpr (by decide)
  refine ⟨hvalid, functions, entry, accepted, ?_, fun f hf => ?_, made, next, distinct next⟩
  · exact (map_eq_of_forall₂ (fun _ _ h => h.candidates) apart).trans rfl
  · obtain ⟨_, -, h⟩ := exists_of_forall₂ apart hf
    exact h.nodup

/-- A leniently valid model may have a subcommand with the name of an alias, and then offers it twice. -/
example :
    let c : Command :=
      { name := "demo".toList, options := [.flag ["-a".toList]], subcommands := [{ name := "-a".toList }] }
    (c.validate .lenient).result = .ok () ∧
      (ofTree [] c).result.map (·.map (·.candidates)) = .ok [["-a".toList, "-a".toList], []] :=
  ⟨rfl, rfl⟩

end CompletionFunction
end ShellCompletion

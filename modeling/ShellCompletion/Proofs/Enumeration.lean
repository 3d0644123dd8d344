import ShellCompletion.Proofs.Classification
import ShellCompletion.Proofs.Identifier
import ShellCompletion.Proofs.Worklist

/-! Which functions a tree has: one for each of its commands, root first, depth first and in order of declaration. A
    function names its subcommands' functions by their identifiers before any of them is made, and these are the
    identifiers that they then get. -/

namespace ShellCompletion.CompletionFunction
open Command

/-- What a function says of a node of a tree. The entries are the functions of the whole tree with their nodes. -/
structure Describes (stem : Text) (entries : List (CompletionFunction × Node)) (f : CompletionFunction)
    (node : Node) : Prop where
  path : f.path = node.path
  identifier : identifierOf? stem node.path = .ok f.identifier
  description : f.description = node.command.description
  options : OptionTable.ofCommand node.command = .ok f.options
  subcommands : List.Forall₂ (fun link sub => link.name = sub.name ∧
    ∃ g, (g, ⟨node.path ++ [sub.name], sub⟩) ∈ entries ∧ link.identifier = g.identifier)
      f.subcommands node.command.subcommands

variable {stem : Text} {root : Command} {functions : List CompletionFunction} {node : Node}

theorem mem_zip_map_of_mem {α β : Type} {f : α → β} {l : List α} {a : α} (ha : a ∈ l) : (f a, a) ∈ (l.map f).zip l := by
  have paired : (l.map f).zip l = l.map fun a => (f a, a) := by
    have zipped := @List.zip_map' α β α f id l
    rwa [List.map_id] at zipped
  rw [paired]
  exact List.mem_map_of_mem ha

theorem describes_atNode (hcommands : ∀ node ∈ root.nodes, node.command.Completable) (hnode : node ∈ root.nodes) :
    Describes stem ((root.nodes.map (atNode stem)).zip root.nodes) (atNode stem node) node where
  path := rfl
  identifier := by
    obtain ⟨more, hpath⟩ := path_of_mem_nodes hnode
    exact identifierOf?_eq_ok (by simp [hpath])
  description := rfl
  options := by
    have hc := hcommands node hnode
    exact OptionTable.ofCommand_eq_ok.mpr ⟨⟨hc.options, hc.aliases_nodup⟩, rfl⟩
  subcommands := by
    show List.Forall₂ _ (node.command.subcommandNames.map _) node.command.subcommands
    rw [Command.subcommandNames, List.map_map, List.forall₂_map_left_iff, List.forall₂_same]
    intro sub hsub
    -- The node of the subcommand is in the tree, so that its function is among those of the tree.
    have hbelow : ⟨node.path ++ [sub.name], sub⟩ ∈ root.nodes := sub_mem_nodes hnode hsub
    exact ⟨rfl, atNode stem _, mem_zip_map_of_mem hbelow, rfl⟩

/-- The functions of a tree are made one after the other from a stack. There are as many as there are commands; in the
    order of the tree, each describes its command and links to the functions of its subcommands; and no two of them
    have the same path. -/
theorem functions_enumerate_tree (accepted : (ofTree stem root).result = .ok functions) :
    ofTree stem root = ofStack stem root ∧
      functions.length = root.countFromStack ∧ root.countFromStack = root.nodeCount ∧
      List.Forall₂ (Describes stem (functions.zip root.nodes)) functions root.nodes ∧
      (functions.map (·.path)).Nodup := by
  obtain ⟨hcommands, rfl⟩ := ofTree_eq_ok.mp accepted
  refine ⟨ofTree_eq_ofStack stem root, ?_, root.countFromStack_eq, ?_, ?_⟩
  · rw [List.length_map, length_nodes, countFromStack_eq]
  · rw [List.forall₂_map_left_iff, List.forall₂_same]
    exact fun node hnode => describes_atNode hcommands hnode
  · rw [List.map_map]
    exact nodup_paths_nodes fun node hnode => (hcommands node hnode).subcommands_nodup

/-- Of the sample, where a subcommand has the name of the command above it. -/
theorem functions_enumerate_tree_sample :
    ∃ functions, (ofTree defaultStem Script.sample).result = .ok functions ∧ functions.length = 4 ∧
      functions.map (·.path) = [["demo".toList], ["demo".toList, "it's".toList],
        ["demo".toList, "it's".toList, "it's".toList], ["demo".toList, "esac".toList]] ∧
      (functions.map (·.path)).Nodup := by
  have accepted : (ofTree defaultStem Script.sample).result = .ok (Script.functionsOf Script.sample) := rfl
  obtain ⟨-, hlength, hcount, -, hnodup⟩ := functions_enumerate_tree accepted
  exact ⟨_, accepted, hlength.trans (hcount.trans rfl), rfl, hnodup⟩

end ShellCompletion.CompletionFunction

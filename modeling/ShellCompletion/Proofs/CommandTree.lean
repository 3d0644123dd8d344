import Mathlib.Data.List.Forall2
import Mathlib.Data.List.Nodup
import ShellCompletion.Model.Command

/-! The commands of a tree with their paths. A path leads through the names of a command and those above it, so
    where the subcommands of each command have different names, no two commands share a path. -/

namespace ShellCompletion

/-! ### Lists -/

/-- Where only one member can pass a test, the first that passes is that member or there is none. -/
theorem find?_eq_of_unique {α : Type} {l : List α} {p : α → Bool} {x : α} (hx : x ∈ l)
    (unique : ∀ y ∈ l, p y = true → y = x) : l.find? p = if p x then some x else none := by
  cases hfind : l.find? p with
  | none =>
    have := List.find?_eq_none.mp hfind x hx
    simp [this]
  | some y =>
    have hy := List.find?_some hfind
    obtain rfl := unique y (List.mem_of_find?_eq_some hfind) hy
    simp [hy]

/-- Where the keys of a list are distinct, one member has the key of a member. -/
theorem filter_key_eq {α β : Type} [BEq β] [LawfulBEq β] {l : List α} {key : α → β} (hl : (l.map key).Nodup)
    {x : α} (hx : x ∈ l) : l.filter (fun y => key y == key x) = [x] := by
  induction l with
  | nil => cases hx
  | cons z l ih =>
    obtain ⟨hz, hl⟩ := List.nodup_cons.mp hl
    rcases List.mem_cons.mp hx with rfl | hx
    · have none : l.filter (fun y => key y == key x) = [] := by
        rw [List.filter_eq_nil_iff]
        intro y hy hyx
        exact hz (List.mem_map.mpr ⟨y, hy, beq_iff_eq.mp hyx⟩)
      simp [none]
    · have hne : key z ≠ key x := fun h => hz (List.mem_map.mpr ⟨x, hx, h.symm⟩)
      simp [hne, ih hl hx]

section
variable {α β γ : Type} {R : α → β → Prop} {l : List α} {l' : List β}

/-- What is the same for related members is the same for the lists. -/
theorem map_eq_of_forall₂ {f : α → γ} {g : β → γ} (hfg : ∀ a b, R a b → f a = g b) (h : List.Forall₂ R l l') :
    l.map f = l'.map g := by
  rw [← List.forall₂_eq_eq_eq]
  exact List.rel_map hfg h

/-- Each member is related to one of the other list. -/
theorem exists_of_forall₂ (h : List.Forall₂ R l l') {a : α} (ha : a ∈ l) : ∃ b ∈ l', R a b := by
  induction h with
  | nil => cases ha
  | cons hab _ ih =>
    rcases List.mem_cons.mp ha with rfl | ha
    · exact ⟨_, List.mem_cons_self, hab⟩
    · obtain ⟨b, hb, hr⟩ := ih ha
      exact ⟨b, List.mem_cons_of_mem _ hb, hr⟩

/-- In the same place are related members, or none. -/
theorem rel_getElem? (h : List.Forall₂ R l l') (i : Nat) : Option.Rel R l[i]? l'[i]? := by
  induction h generalizing i with
  | nil => exact .none
  | cons hab _ ih =>
    cases i with
    | zero => exact .some hab
    | succ i => exact ih i

theorem flatMap_eq_of_forall₂ {f : α → List γ} {g : β → List γ} (hfg : ∀ a b, R a b → f a = g b)
    (h : List.Forall₂ R l l') : l.flatMap f = l'.flatMap g := by
  rw [List.flatMap_def, List.flatMap_def, map_eq_of_forall₂ hfg h]

end

namespace Command

/-! ### Nodes -/

theorem nodes_eq (c : Command) : c.nodes = ⟨[c.name], c⟩ :: nodesBelowAll [c.name] c.subcommands := by
  obtain ⟨name, description, options, subs⟩ := c
  simp [nodes, nodesBelow]

theorem root_mem_nodes (c : Command) : ⟨[c.name], c⟩ ∈ c.nodes := by
  simp [nodes_eq]

theorem mem_nodesBelowAll {node : Node} {above : List Text} {cs : List Command} :
    node ∈ nodesBelowAll above cs ↔ ∃ c ∈ cs, node ∈ c.nodesBelow above := by
  induction cs with
  | nil => simp [nodesBelowAll]
  | cons c cs ih => simp [nodesBelowAll, ih]

theorem mem_nodesBelow {node : Node} {above : List Text} {c : Command} :
    node ∈ c.nodesBelow above ↔
      node = ⟨above ++ [c.name], c⟩ ∨ ∃ sub ∈ c.subcommands, node ∈ sub.nodesBelow (above ++ [c.name]) := by
  obtain ⟨name, description, options, subs⟩ := c
  simp [nodesBelow, mem_nodesBelowAll]

mutual

theorem length_nodesBelow : ∀ (c : Command) {above : List Text}, (c.nodesBelow above).length = c.nodeCount
  | ⟨name, description, options, subs⟩, above => by
    rw [nodesBelow, nodeCount, List.length_cons, length_nodesBelowAll subs, Nat.add_comm]

theorem length_nodesBelowAll : ∀ (cs : List Command) {above : List Text},
    (nodesBelowAll above cs).length = nodeCountAll cs
  | [], above => rfl
  | c :: cs, above => by
    rw [nodesBelowAll, nodeCountAll, List.length_append, length_nodesBelow c, length_nodesBelowAll cs]

end

/-- The list of all commands has as many members as there are commands. -/
theorem length_nodes (c : Command) : c.nodes.length = c.nodeCount := length_nodesBelow c

mutual

/-- The subcommands of a command of the tree are commands of the tree. -/
theorem sub_mem_nodesBelow {node : Node} {sub : Command} (hsub : sub ∈ node.command.subcommands) :
    ∀ (c : Command) {above : List Text}, node ∈ c.nodesBelow above →
      ⟨node.path ++ [sub.name], sub⟩ ∈ c.nodesBelow above
  | ⟨name, description, options, subs⟩, above, hnode => by
    rw [nodesBelow, List.mem_cons] at hnode ⊢
    rcases hnode with rfl | hnode
    · refine Or.inr (mem_nodesBelowAll.mpr ⟨sub, hsub, ?_⟩)
      rw [mem_nodesBelow]
      exact Or.inl rfl
    · exact Or.inr (sub_mem_nodesBelowAll hsub subs hnode)

theorem sub_mem_nodesBelowAll {node : Node} {sub : Command} (hsub : sub ∈ node.command.subcommands) :
    ∀ (cs : List Command) {above : List Text}, node ∈ nodesBelowAll above cs →
      ⟨node.path ++ [sub.name], sub⟩ ∈ nodesBelowAll above cs
  | [], above, hnode => by cases hnode
  | c :: cs, above, hnode => by
    rw [nodesBelowAll, List.mem_append] at hnode ⊢
    rcases hnode with hnode | hnode
    · exact Or.inl (sub_mem_nodesBelow hsub c hnode)
    · exact Or.inr (sub_mem_nodesBelowAll hsub cs hnode)

end

theorem sub_mem_nodes {c sub : Command} {node : Node} (hnode : node ∈ c.nodes)
    (hsub : sub ∈ node.command.subcommands) : ⟨node.path ++ [sub.name], sub⟩ ∈ c.nodes :=
  sub_mem_nodesBelow hsub c hnode

mutual

theorem mem_lastFirst_iff {d : Command} : ∀ (c : Command) {above : List Text},
    d ∈ c.lastFirst ↔ ∃ node ∈ c.nodesBelow above, node.command = d
  | ⟨name, description, options, subs⟩, above => by
    simp only [lastFirst, nodesBelow, List.mem_cons, exists_eq_or_imp]
    rw [mem_lastFirstAll_iff subs, eq_comm]

theorem mem_lastFirstAll_iff {d : Command} : ∀ (cs : List Command) {above : List Text},
    d ∈ lastFirstAll cs ↔ ∃ node ∈ nodesBelowAll above cs, node.command = d
  | [], above => by simp [lastFirstAll, nodesBelowAll]
  | c :: cs, above => by
    simp only [lastFirstAll, nodesBelowAll, List.mem_append, or_and_right, exists_or]
    rw [@mem_lastFirst_iff d c above, @mem_lastFirstAll_iff d cs above, or_comm]

end

/-- The two orders in which a tree is visited lead to the same commands. -/
theorem forall_mem_lastFirst {c : Command} {P : Command → Prop} :
    (∀ d ∈ c.lastFirst, P d) ↔ ∀ node ∈ c.nodes, P node.command := by
  have visited (d : Command) : d ∈ c.lastFirst ↔ ∃ node ∈ c.nodes, node.command = d := mem_lastFirst_iff c
  simp only [visited]
  exact ⟨fun h node hnode => h _ ⟨node, hnode, rfl⟩, fun h _ ⟨node, hnode, hd⟩ => hd ▸ h node hnode⟩

/-! ### Paths -/

mutual

theorem path_of_mem_nodesBelow {node : Node} : ∀ (c : Command) {above : List Text}, node ∈ c.nodesBelow above →
    ∃ more, node.path = above ++ c.name :: more
  | ⟨name, description, options, subs⟩, above, hnode => by
    rw [nodesBelow, List.mem_cons] at hnode
    rcases hnode with rfl | hnode
    · exact ⟨[], rfl⟩
    · obtain ⟨sub, more, hpath⟩ := path_of_mem_nodesBelowAll subs hnode
      exact ⟨sub :: more, by rw [hpath, List.append_assoc]; rfl⟩

theorem path_of_mem_nodesBelowAll {node : Node} : ∀ (cs : List Command) {above : List Text},
    node ∈ nodesBelowAll above cs → ∃ name more, node.path = above ++ name :: more
  | [], above, hnode => by cases hnode
  | c :: cs, above, hnode => by
    rw [nodesBelowAll, List.mem_append] at hnode
    rcases hnode with hnode | hnode
    · obtain ⟨more, hpath⟩ := path_of_mem_nodesBelow c hnode
      exact ⟨c.name, more, hpath⟩
    · exact path_of_mem_nodesBelowAll cs hnode

end

theorem path_of_mem_nodes {c : Command} {node : Node} (hnode : node ∈ c.nodes) :
    ∃ more, node.path = c.name :: more := by
  simpa using path_of_mem_nodesBelow c hnode

/-- The subcommands of each of the commands have different names. -/
def DistinctSubcommands (nodes : List Node) : Prop := ∀ node ∈ nodes, node.command.subcommandNames.Nodup

mutual

theorem nodup_paths_nodesBelow : ∀ (c : Command) {above : List Text}, DistinctSubcommands (c.nodesBelow above) →
    ((c.nodesBelow above).map (·.path)).Nodup
  | ⟨name, description, options, subs⟩, above, hdistinct => by
    rw [nodesBelow] at hdistinct ⊢
    obtain ⟨hsubs, hbelow⟩ := List.forall_mem_cons.mp hdistinct
    rw [List.map_cons, List.nodup_cons]
    refine ⟨fun hmem => ?_, nodup_paths_nodesBelowAll subs hsubs hbelow⟩
    obtain ⟨node, hnode, hpath⟩ := List.mem_map.mp hmem
    obtain ⟨sub, more, hpath'⟩ := path_of_mem_nodesBelowAll subs hnode
    rw [hpath'] at hpath
    exact absurd (congrArg List.length hpath) (by simp)

theorem nodup_paths_nodesBelowAll : ∀ (cs : List Command) {above : List Text}, (cs.map (·.name)).Nodup →
    DistinctSubcommands (nodesBelowAll above cs) → ((nodesBelowAll above cs).map (·.path)).Nodup
  | [], above, _, _ => List.nodup_nil
  | c :: cs, above, hnames, hdistinct => by
    rw [nodesBelowAll] at hdistinct ⊢
    obtain ⟨hc, hcs⟩ := List.forall_mem_append.mp hdistinct
    obtain ⟨hname, hnames⟩ := List.nodup_cons.mp hnames
    rw [List.map_append, List.nodup_append]
    refine ⟨nodup_paths_nodesBelow c hc, nodup_paths_nodesBelowAll cs hnames hcs, fun p hp q hq hpq => ?_⟩
    obtain ⟨node, hnode, rfl⟩ := List.mem_map.mp hp
    obtain ⟨node', hnode', rfl⟩ := List.mem_map.mp hq
    obtain ⟨more, hpath⟩ := path_of_mem_nodesBelow c hnode
    obtain ⟨d, hd, hnode'⟩ := mem_nodesBelowAll.mp hnode'
    obtain ⟨more', hpath'⟩ := path_of_mem_nodesBelow d hnode'
    rw [hpath, hpath', List.append_cancel_left_eq, List.cons.injEq] at hpq
    exact hname (List.mem_map.mpr ⟨d, hd, hpq.1.symm⟩)

end

/-- Where the subcommands of each command have different names, no two commands share a path. -/
theorem nodup_paths_nodes {c : Command} (hdistinct : DistinctSubcommands c.nodes) : (c.nodes.map (·.path)).Nodup :=
  nodup_paths_nodesBelow c hdistinct

/-! ### Descent -/

/-- The node that words lead to from a node: each names a subcommand, up to the first that does not. -/
def Node.descend (node : Node) : List Text → Node
  | [] => node
  | word :: words =>
    match node.command.subcommand? word with
    | some sub => Node.descend ⟨node.path ++ [sub.name], sub⟩ words
    | none => node

/-- The node that words lead to from the root of a tree. -/
def reached (c : Command) (words : List Text) : Node := Node.descend ⟨[c.name], c⟩ words

theorem mem_of_subcommand? {c sub : Command} {name : Text} (h : c.subcommand? name = some sub) :
    sub ∈ c.subcommands ∧ sub.name = name :=
  ⟨List.mem_of_find?_eq_some h, by simpa using List.find?_some h⟩

theorem descend_mem_nodes {c : Command} {node : Node} {words : List Text} (hnode : node ∈ c.nodes) :
    node.descend words ∈ c.nodes := by
  induction words generalizing node with
  | nil => exact hnode
  | cons word words ih =>
    rw [Node.descend]
    split
    · next sub hsub => exact ih (sub_mem_nodes hnode (mem_of_subcommand? hsub).1)
    · exact hnode

theorem reached_mem_nodes (c : Command) (words : List Text) : c.reached words ∈ c.nodes :=
  descend_mem_nodes c.root_mem_nodes

end Command
end ShellCompletion

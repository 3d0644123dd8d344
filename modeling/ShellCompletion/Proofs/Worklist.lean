import Mathlib.Algebra.Ring.Nat
import ShellCompletion.CompletionFunction
import ShellCompletion.Proofs.CommandTree
import ShellCompletion.Proofs.Outcome
import ShellCompletion.Validation

/-! Trees without recursion. A stack holds what is still to be visited; whatever is taken off its top makes room for
    what hangs below it. At each point what was visited, followed by the trees on the stack, is the whole tree in
    order, so that a loop over the stack does what a loop over the list of all commands does, failures and events
    included. -/

namespace ShellCompletion

/-- How trees of some kind branch. The size only shows that every tree comes to an end. -/
structure Branching (α : Type) where
  /-- What comes onto the stack in the place of the thing that was on top, the new top first. -/
  below : α → List α
  size : α → Nat
  size_below : ∀ a, ((below a).map size).sum < size a

namespace Branching
variable {α β σ : Type} {m : Type → Type} [Monad m]

/-- Takes one thing after the other off a stack and visits it. -/
def workOff (b : Branching α) (visit : σ → α → m σ) (s : σ) : List α → m σ
  | [] => pure s
  | a :: stack => do b.workOff visit (← visit s a) (b.below a ++ stack)
termination_by stack => (stack.map b.size).sum
decreasing_by
  have := b.size_below a
  rw [List.map_append, List.sum_append, List.map_cons, List.sum_cons]
  omega

/-- The order in which a stack is worked off is that of any list of the trees in which each thing stands before those
    below it. -/
theorem workOff_eq_foldlM {b : Branching α} {order : α → List α}
    (order_eq : ∀ a, order a = a :: (b.below a).flatMap order) (visit : σ → α → m σ) (s : σ) (stack : List α) :
    b.workOff visit s stack = (stack.flatMap order).foldlM visit s := by
  fun_induction workOff b visit s stack with
  | case1 s => rfl
  | case2 s a stack ih =>
    rw [List.flatMap_cons, order_eq, List.cons_append, List.foldlM_cons]
    congr 1
    funext next
    rw [ih, List.flatMap_append]

end Branching

namespace Command

/-! ### Branchings of a tree of commands -/

theorem nodeCountAll_eq (cs : List Command) : nodeCountAll cs = (cs.map nodeCount).sum := by
  induction cs with
  | nil => rfl
  | cons c cs ih => rw [nodeCountAll, ih, List.map_cons, List.sum_cons]

theorem nodeCount_eq (c : Command) : c.nodeCount = 1 + (c.subcommands.map nodeCount).sum := by
  obtain ⟨name, description, options, subs⟩ := c
  rw [nodeCount, nodeCountAll_eq]

/-- The nodes directly below a node, in order of declaration. -/
def Node.below (node : Node) : List Node := node.command.subcommands.map fun sub => ⟨node.path ++ [sub.name], sub⟩

/-- A node and all nodes below it, root first and in order of declaration. -/
def Node.subtree (node : Node) : List Node := node :: nodesBelowAll node.path node.command.subcommands

theorem nodesBelowAll_eq (path : List Text) (cs : List Command) :
    nodesBelowAll path cs = (cs.map fun sub => ⟨path ++ [sub.name], sub⟩).flatMap Node.subtree := by
  induction cs with
  | nil => rfl
  | cons c cs ih =>
    obtain ⟨name, description, options, subs⟩ := c
    rw [nodesBelowAll, nodesBelow, ih, List.map_cons, List.flatMap_cons]
    rfl

theorem Node.subtree_eq (node : Node) : node.subtree = node :: node.below.flatMap Node.subtree := by
  rw [subtree, nodesBelowAll_eq, below]

theorem nodes_eq_subtree (c : Command) : c.nodes = Node.subtree ⟨[c.name], c⟩ := nodes_eq c

/-- The subcommands are put on the stack in reverse, so that the first one comes to lie on top. -/
def Node.firstOnTop : Branching Node where
  below := Node.below
  size node := node.command.nodeCount
  size_below node := by
    have counts : node.below.map (·.command.nodeCount) = node.command.subcommands.map nodeCount := by
      rw [Node.below, List.map_map]
      rfl
    rw [counts, nodeCount_eq node.command]
    omega

/-- The subcommands are put on the stack in order of declaration, so that the last one comes to lie on top. -/
def lastOnTop : Branching Command where
  below c := c.subcommands.reverse
  size := nodeCount
  size_below c := by
    rw [List.map_reverse, List.sum_reverse, nodeCount_eq c]
    omega

theorem lastFirstAll_eq (cs : List Command) : lastFirstAll cs = cs.reverse.flatMap lastFirst := by
  induction cs with
  | nil => rfl
  | cons c cs ih => rw [lastFirstAll, ih, List.reverse_cons, List.flatMap_append, List.flatMap_singleton]

theorem lastFirst_eq (c : Command) : c.lastFirst = c :: c.subcommands.reverse.flatMap lastFirst := by
  obtain ⟨name, description, options, subs⟩ := c
  rw [lastFirst, lastFirstAll_eq]

/-! ### Counting -/

/-- The number of commands, counted as they come off a stack. -/
def countFromStack (c : Command) : Nat := Id.run (lastOnTop.workOff (fun n _ => pure (n + 1)) 0 [c])

mutual

theorem length_lastFirst : ∀ c : Command, c.lastFirst.length = c.nodeCount
  | ⟨name, description, options, subs⟩ => by
    rw [lastFirst, nodeCount, List.length_cons, length_lastFirstAll subs, Nat.add_comm]

theorem length_lastFirstAll : ∀ cs : List Command, (lastFirstAll cs).length = nodeCountAll cs
  | [] => rfl
  | c :: cs => by
    rw [lastFirstAll, nodeCountAll, List.length_append, length_lastFirst c, length_lastFirstAll cs, Nat.add_comm]

end

theorem countFromStack_eq (c : Command) : c.countFromStack = c.nodeCount := by
  have counted : ∀ (l : List Command) (n : Nat),
      Id.run (l.foldlM (fun n _ => pure (n + 1)) n) = n + l.length := by
    intro l
    induction l with
    | nil => exact fun n => rfl
    | cons c l ih =>
      intro n
      rw [List.foldlM_cons, List.length_cons, Nat.add_comm l.length, ← Nat.add_assoc]
      exact ih (n + 1)
  rw [countFromStack, Branching.workOff_eq_foldlM lastFirst_eq, counted, List.flatMap_singleton, length_lastFirst,
    Nat.zero_add]

/-! ### Validating -/

/-- Validation with a stack of the commands that are still to be checked. -/
def validateFromStack (mode : Validation.Strictness) (model : Command) : Logged Unit :=
  lastOnTop.workOff (fun _ c => Validation.checkCommand mode c) () [model]

theorem validate_eq_fromStack (mode : Validation.Strictness) (model : Command) :
    model.validate mode = model.validateFromStack mode := by
  have folded : ∀ l : List Command, l.forM (Validation.checkCommand mode) =
      l.foldlM (fun _ c => Validation.checkCommand mode c) () := by
    intro l
    induction l with
    | nil => rfl
    | cons c l ih =>
      show (Validation.checkCommand mode c >>= fun _ => l.forM (Validation.checkCommand mode)) = _
      rw [ih]
      rfl
  rw [validateFromStack, Branching.workOff_eq_foldlM lastFirst_eq, List.flatMap_singleton, validate, folded]

end Command

/-! ### Generating -/

namespace CompletionFunction

/-- The function of a node comes after those that were made before. -/
def addNode (stem : Text) (functions : List CompletionFunction) (node : Command.Node) :
    Logged (List CompletionFunction) := do
  let f ← Logged.lift (ofNode stem node)
  Logged.debug ("Generated completion function ".toList ++ f.identifier ++ " for ".toList ++
    Failure.quoted f.displayPath)
  return functions ++ [f]

/-- The functions of a tree, made with a stack of the nodes that still have none. -/
def ofStack (stem : Text) (root : Command) : Logged (List CompletionFunction) :=
  Command.Node.firstOnTop.workOff (addNode stem) [] [⟨[root.name], root⟩]

/-- A loop that puts each result behind those before it returns the list of all results. -/
theorem foldlM_push {α β : Type} {m : Type → Type} [Monad m] [LawfulMonad m] (f : α → m β) (done : List β) (l : List α) :
    l.foldlM (fun done a => f a >>= fun b => pure (done ++ [b])) done = (l.mapM f >>= fun bs => pure (done ++ bs)) := by
  induction l generalizing done with
  | nil => rw [List.foldlM_nil, List.mapM_nil, pure_bind, List.append_nil]
  | cons a l ih =>
    rw [List.foldlM_cons, List.mapM_cons]
    simp only [bind_assoc, pure_bind, ih, List.append_assoc, List.singleton_append]

theorem ofTree_eq_ofStack (stem : Text) (root : Command) : ofTree stem root = ofStack stem root := by
  have step : addNode stem = fun functions node => (do
      let f ← Logged.lift (ofNode stem node)
      Logged.debug ("Generated completion function ".toList ++ f.identifier ++ " for ".toList ++
        Failure.quoted f.displayPath)
      return f) >>= fun f => pure (functions ++ [f]) := by
    funext functions node
    simp only [addNode, bind_assoc, pure_bind]
  rw [ofStack, Branching.workOff_eq_foldlM Command.Node.subtree_eq, List.flatMap_singleton, ← Command.nodes_eq_subtree,
    step, foldlM_push]
  simp only [List.nil_append, bind_pure]
  rfl

end CompletionFunction
end ShellCompletion

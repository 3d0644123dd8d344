import ShellCompletion.Proofs.DeclaredValues

/-! How deep documents nest. A document that is read has no more levels than its limit, an untyped value no more than
    the node that it comes from, and the subcommands of a command fewer than the command. So a command does not depend
    on how many levels it may have, as long as it may have as many as its declaration. -/

namespace ShellCompletion

/-! ### Nodes -/

namespace Yaml.Node

mutual

/-- How many collections stand inside one another. -/
def depth : Node → Nat
  | scalar .. => 0
  | sequence _ items => depthOfItems items + 1
  | mapping _ entries => depthOfEntries entries + 1

def depthOfItems : List Node → Nat
  | [] => 0
  | n :: ns => max n.depth (depthOfItems ns)

def depthOfEntries : List (Node × Node) → Nat
  | [] => 0
  | (k, n) :: es => max (max k.depth n.depth) (depthOfEntries es)

end

variable {levels : Nat} {items : List Node} {entries : List (Node × Node)}

theorem depthOfItems_le (h : ∀ n ∈ items, n.depth ≤ levels) : depthOfItems items ≤ levels := by
  induction items with
  | nil => exact Nat.zero_le _
  | cons n items ih =>
    obtain ⟨hn, hitems⟩ := List.forall_mem_cons.mp h
    exact Nat.max_le.mpr ⟨hn, ih hitems⟩

theorem depthOfEntries_le (h : ∀ e ∈ entries, e.1.depth ≤ levels ∧ e.2.depth ≤ levels) :
    depthOfEntries entries ≤ levels := by
  induction entries with
  | nil => exact Nat.zero_le _
  | cons e entries ih =>
    obtain ⟨⟨hk, hn⟩, hentries⟩ := List.forall_mem_cons.mp h
    exact Nat.max_le.mpr ⟨Nat.max_le.mpr ⟨hk, hn⟩, ih hentries⟩

/-! ### Expansion -/

section Expand
variable {α β : Type} {s s' : Nat} {a : Anchors} {t : Tree} {n : Node}

theorem bind_eq_some {x : Expand α} {f : α → Expand β} {r : β × Nat} :
    (x >>= f) s = some r ↔ ∃ a s', x s = some (a, s') ∧ f a s' = some r := by
  show (x s).bind _ = some r ↔ _
  rw [Option.bind_eq_some_iff]
  constructor
  · rintro ⟨⟨a, s'⟩, hx, hf⟩
    exact ⟨a, s', hx, hf⟩
  · rintro ⟨a, s', hx, hf⟩
    exact ⟨(a, s'), hx, hf⟩

theorem forall_mem_of_mapM {f : α → Expand β} {P : β → Prop} {l : List α} {bs : List β}
    (hf : ∀ {a s b s'}, f a s = some (b, s') → P b) (h : l.mapM f s = some (bs, s')) : ∀ b ∈ bs, P b := by
  induction l generalizing s bs with
  | nil =>
    cases h
    exact nofun
  | cons a l ih =>
    rw [List.mapM_cons] at h
    obtain ⟨b, _, hb, h⟩ := bind_eq_some.mp h
    obtain ⟨rest, _, hrest, ⟨⟩⟩ := bind_eq_some.mp h
    exact List.forall_mem_cons.mpr ⟨hf hb, ih hrest⟩

theorem depth_le_of_expand (h : a.expand levels t s = some (n, s')) : n.depth ≤ levels := by
  induction levels generalizing t s n s' with
  | zero =>
    obtain ⟨t', _, -, h⟩ := bind_eq_some.mp h
    cases t' with
    | scalar p style text =>
      cases h
      exact Nat.le_refl _
    | _ => cases h
  | succ levels ih =>
    obtain ⟨t', _, -, h⟩ := bind_eq_some.mp h
    cases t' with
    | scalar p style text =>
      cases h
      exact Nat.zero_le _
    | sequence p items =>
      obtain ⟨nodes, _, hnodes, ⟨⟩⟩ := bind_eq_some.mp h
      exact Nat.succ_le_succ (depthOfItems_le (forall_mem_of_mapM ih hnodes))
    | mapping p entries =>
      obtain ⟨nodes, _, hnodes, ⟨⟩⟩ := bind_eq_some.mp h
      refine Nat.succ_le_succ (depthOfEntries_le (forall_mem_of_mapM ?_ hnodes))
      intro e _ _ _ he
      obtain ⟨k, _, hk, he⟩ := bind_eq_some.mp he
      obtain ⟨m, _, hm, ⟨⟩⟩ := bind_eq_some.mp he
      exact ⟨ih hk, ih hm⟩
    | reference _ => cases h

end Expand

theorem depth_le_of_ofText? {t : Text} {n : Node} (h : ofText? t = some n) : n.depth ≤ levelLimit := by
  obtain ⟨tokens, -, h⟩ := Option.bind_eq_some_iff.mp h
  obtain ⟨tree, -, h⟩ := Option.bind_eq_some_iff.mp h
  obtain ⟨⟨_, _⟩, hexpand, rfl⟩ := Option.map_eq_some_iff.mp h
  exact depth_le_of_expand hexpand

end Yaml.Node

/-! ### Values -/

namespace Value

mutual

/-- How many collections stand inside one another, whatever their tags. -/
def depth : Value → Nat
  | sequence items => depthOfItems items + 1
  | mapping entries => depthOfEntries entries + 1
  | tagged _ v => v.depth
  | _ => 0

def depthOfItems : List Value → Nat
  | [] => 0
  | v :: vs => max v.depth (depthOfItems vs)

def depthOfEntries : List (Value × Value) → Nat
  | [] => 0
  | (k, v) :: es => max (max k.depth v.depth) (depthOfEntries es)

end

variable {v x : Value} {entries : List (Value × Value)} {e : Value × Value}

theorem depth_untagged (v : Value) : v.untagged.depth = v.depth := by
  fun_induction untagged v with
  | case1 tag v ih => rw [ih, depth]
  | case2 v => rfl

theorem depth_le_depthOfEntries (h : e ∈ entries) : e.2.depth ≤ depthOfEntries entries := by
  induction entries with
  | nil => cases h
  | cons f entries ih =>
    rw [depthOfEntries]
    rcases List.mem_cons.mp h with rfl | h
    · omega
    · have := ih h
      omega

theorem depth_lt_of_mem (hentries : v.entries? = some entries) (h : e ∈ entries) : e.2.depth < v.depth := by
  unfold entries? at hentries
  split at hentries
  · next entries' hv =>
    cases hentries
    rw [← depth_untagged v, hv, depth]
    exact Nat.lt_succ_of_le (depth_le_depthOfEntries h)
  · cases hentries
    cases h
  · cases hentries

theorem depth_lt_of_record? {names : List Text} {fields : List (Option Value)} (h : v.record? names = some fields)
    (hx : some x ∈ fields) : x.depth < v.depth := by
  obtain ⟨entries, hentries, h⟩ := Option.bind_eq_some_iff.mp h
  obtain ⟨named, hnamed, h⟩ := Option.bind_eq_some_iff.mp h
  obtain ⟨-, rfl⟩ := Source.select?_eq_some.mp h
  obtain ⟨name, -, hlookup⟩ := List.mem_map.mp hx
  obtain ⟨before, after, rfl, -⟩ := List.lookup_eq_some_iff.mp hlookup
  obtain ⟨e, he, hread⟩ := exists_of_mem_mapM hnamed (List.mem_append_right _ (List.mem_cons_self ..))
  obtain ⟨_, -, ⟨⟩⟩ := Option.bind_eq_some_iff.mp hread
  exact depth_lt_of_mem hentries he

theorem depth_lt_of_mem_subcommands {c : Terse.CommandEntry} (h : Terse.commandEntry? v = some c)
    (he : e ∈ c.subcommands) : e.2.depth < v.depth := by
  obtain ⟨n, d, o, s, hfields, -, -, -, hsubs⟩ := Terse.commandEntry?_eq_some.mp h
  cases s with
  | none =>
    have nothing : c.subcommands = [] := (Option.some.inj hsubs).symm
    rw [nothing] at he
    cases he
  | some x =>
    have inner : e.2.depth < x.depth := depth_lt_of_mem hsubs he
    have outer : x.depth < v.depth := depth_lt_of_record? hfields (by simp)
    exact Nat.lt_trans inner outer

end Value

namespace Yaml

theorem depth_withOwnTag (tag : Option Text) (v : Value) : (withOwnTag tag v).depth = v.depth := by
  rw [← Value.depth_untagged, untagged_withOwnTag, Value.depth_untagged]

theorem mapping?_eq_some {entries : List (Value × Value)} {v : Value} (h : Value.mapping? entries = some v) :
    v = .mapping entries := by
  obtain ⟨-, ⟨⟩⟩ := Option.ite_none_left_eq_some.mp h
  rfl

mutual

/-- A value nests no deeper than what it comes from. -/
theorem depth_le_of_value? : ∀ {n : Node} {v : Value}, value? n = some v → v.depth ≤ n.depth
  | .scalar tag style text, v, h => by
    have scalar := isScalar_of_scalarValue? h
    rw [← Value.depth_untagged]
    generalize v.untagged = w at scalar
    cases scalar <;> exact Nat.le_refl _
  | .sequence tag items, v, h => by
    obtain ⟨vs, hvs, rfl⟩ := Option.map_eq_some_iff.mp h
    rw [depth_withOwnTag]
    exact Nat.succ_le_succ (depth_le_of_values? hvs)
  | .mapping tag entries, v, h => by
    obtain ⟨w, hw, rfl⟩ := Option.map_eq_some_iff.mp h
    obtain ⟨pairs, hpairs, hw⟩ := Option.bind_eq_some_iff.mp hw
    obtain rfl := mapping?_eq_some hw
    rw [depth_withOwnTag]
    exact Nat.succ_le_succ (depth_le_of_pairs? hpairs)

theorem depth_le_of_values? : ∀ {ns : List Node} {vs : List Value}, values? ns = some vs →
    Value.depthOfItems vs ≤ Node.depthOfItems ns
  | [], vs, h => by
    cases h
    exact Nat.le_refl _
  | n :: ns, vs, h => by
    obtain ⟨v, hv, h⟩ := Option.bind_eq_some_iff.mp h
    obtain ⟨ws, hws, ⟨⟩⟩ := Option.bind_eq_some_iff.mp h
    have first := depth_le_of_value? hv
    have rest := depth_le_of_values? hws
    rw [Value.depthOfItems, Node.depthOfItems]
    omega

theorem depth_le_of_pairs? : ∀ {es : List (Node × Node)} {vs : List (Value × Value)}, pairs? es = some vs →
    Value.depthOfEntries vs ≤ Node.depthOfEntries es
  | [], vs, h => by
    cases h
    exact Nat.le_refl _
  | (k, n) :: es, vs, h => by
    obtain ⟨key, hkey, h⟩ := Option.bind_eq_some_iff.mp h
    obtain ⟨v, hv, h⟩ := Option.bind_eq_some_iff.mp h
    obtain ⟨ws, hws, ⟨⟩⟩ := Option.bind_eq_some_iff.mp h
    have firstKey := depth_le_of_value? hkey
    have first := depth_le_of_value? hv
    have rest := depth_le_of_pairs? hws
    rw [Value.depthOfEntries, Node.depthOfEntries]
    omega

end

end Yaml

/-! ### Commands -/

namespace Terse

theorem depth_lt_of_subcommandEntry {command name : Text} {v : Value} {entry : CommandEntry} {e : Value × Value}
    (h : subcommandEntry command name v = .ok entry) (he : e ∈ entry.subcommands) : e.2.depth < v.depth := by
  have read := declaration?_of_subcommandEntry h
  unfold declaration? at read
  split at read
  · cases read
    cases he
  · exact Value.depth_lt_of_mem_subcommands read he

/-- A command may have as many levels as its declaration, and it makes no difference if it may have one more. -/
theorem commandWithin_of_depth {levels : Nat} {name : Text} {entry : CommandEntry} {c : Command}
    (h : commandWithin (levels + 1) name entry = .ok c) (hdepth : ∀ e ∈ entry.subcommands, e.2.depth < levels) :
    commandWithin levels name entry = .ok c := by
  induction levels generalizing name entry c with
  | zero =>
    obtain ⟨hname, hdescription, hoptions, hsubs⟩ := commandWithin_eq_ok_iff.mp h
    -- no depth is below zero, so there are no subcommands that could need a level
    have none : entry.subcommands = [] := List.eq_nil_iff_forall_not_mem.mpr fun e he => Nat.not_lt_zero _ (hdepth e he)
    rw [none] at hsubs
    rw [commandWithin_eq_ok_iff, none]
    exact ⟨hname, hdescription, hoptions, List.forall₂_nil_left_iff.mpr (List.forall₂_nil_left_iff.mp hsubs)⟩
  | succ levels ih =>
    obtain ⟨hname, hdescription, hoptions, hsubs⟩ := commandWithin_eq_ok_iff.mp h
    refine commandWithin_eq_ok_iff.mpr ⟨hname, hdescription, hoptions, ?_⟩
    refine ((List.forall₂_and_left _ _).mpr ⟨hdepth, hsubs⟩).imp ?_
    rintro e sub ⟨hshallow, hnamed, subentry, hsubentry, below, hbelow, hsub⟩
    obtain rfl := Nat.succ.inj hbelow
    refine ⟨hnamed, subentry, hsubentry, levels, rfl, ih hsub fun f hf => ?_⟩
    have := depth_lt_of_subcommandEntry hsubentry hf
    omega

end Terse
end ShellCompletion

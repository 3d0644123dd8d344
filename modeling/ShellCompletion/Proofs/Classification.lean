import Mathlib.Data.List.Perm.Basic
import ShellCompletion.Proofs.Rejection

/-! How the options of a command are sorted. The table of a command is a partition of its aliases, and what is looked
    up in the table is what the options themselves say. One pass over the options, which keeps the aliases that it has
    seen beside the table so far, comes to the same table or to the same failure. -/

namespace ShellCompletion

namespace Command

/-- The aliases of a command's flags. -/
def flagAliases (c : Command) : List Text := (c.options.filter (!·.takesArgument)).flatMap (·.names)

/-- The aliases of a command's options with a value. -/
def argumentAliases (c : Command) : List Text := (c.options.filter (·.takesArgument)).flatMap (·.names)

/-! ### Aliases -/

/-- An alias belongs to one option only. -/
theorem option_unique {options : List CommandOption} (hnodup : (options.flatMap (·.names)).Nodup)
    {o o' : CommandOption} (ho : o ∈ options) (ho' : o' ∈ options) {name : Text} (hname : name ∈ o.names)
    (hname' : name ∈ o'.names) : o = o' := by
  induction options with
  | nil => cases ho
  | cons x options ih =>
    rw [List.flatMap_cons, List.nodup_append] at hnodup
    obtain ⟨-, hrest, hdisjoint⟩ := hnodup
    have apart : ∀ {y}, y ∈ options → name ∈ y.names → name ∉ x.names := fun hy hny hnx =>
      hdisjoint name hnx name (List.mem_flatMap.mpr ⟨_, hy, hny⟩) rfl
    rcases List.mem_cons.mp ho with rfl | hmem <;> rcases List.mem_cons.mp ho' with rfl | hmem'
    · rfl
    · exact absurd hname (apart hmem' hname')
    · exact absurd hname' (apart hmem hname)
    · exact ih hrest hmem hmem'

variable {c : Command} {o : CommandOption} {name : Text}

theorem mem_names_iff : o.hasName name = true ↔ name ∈ o.names := by
  rw [CommandOption.hasName, List.contains_iff_mem]

theorem mem_of_option? (h : c.option? name = some o) : o ∈ c.options ∧ name ∈ o.names := by
  have hname := List.find?_some (show c.options.find? (·.hasName name) = some o from h)
  exact ⟨List.mem_of_find?_eq_some h, mem_names_iff.mp hname⟩

/-- The option that is found under an alias is the one that declares it. -/
theorem option?_eq_some (hnodup : (c.options.flatMap (·.names)).Nodup) (ho : o ∈ c.options) (hname : name ∈ o.names) :
    c.option? name = some o := by
  have unique : ∀ o' ∈ c.options, o'.hasName name = true → o' = o := fun o' ho' hname' =>
    option_unique hnodup ho' ho (mem_names_iff.mp hname') hname
  rw [option?, find?_eq_of_unique ho unique, if_pos (mem_names_iff.mpr hname)]

/-- Sorting the options by whether they take a value loses no alias and adds none. -/
theorem perm_aliases (c : Command) : (c.flagAliases ++ c.argumentAliases).Perm (c.options.flatMap (·.names)) := by
  have sorted : (c.options.filter (!·.takesArgument) ++ c.options.filter (·.takesArgument)).Perm c.options :=
    List.perm_append_comm.trans (List.filter_append_perm (·.takesArgument) c.options)
  rw [flagAliases, argumentAliases, ← List.flatMap_append]
  exact sorted.flatMap_right _

end Command

namespace OptionTable

/-! ### Tables -/

/-- How the value of the option with this alias is completed, as far as the table knows: that of a flag is not. -/
def policy? (t : OptionTable) (name : Text) : Option Policy :=
  (t.argumentOptions.find? (·.names.contains name)).map (·.policy)

variable {c : Command} {table : OptionTable}

/-- The table finds under an alias the policy that the option of this alias has. -/
theorem policy?_ofOptions (hnodup : (c.options.flatMap (·.names)).Nodup) (name : Text) :
    (ofOptions c.options).policy? name = (c.option? name).bind CommandOption.policy := by
  -- The table has no entry for a flag, so a test of its entries is a test of the options that have a policy.
  have test : ∀ o : CommandOption, (o.policy.map (ArgumentOption.mk o.names)).any (·.names.contains name) =
      (o.policy.isSome && o.hasName name) := fun o => by
    cases o.policy <;> simp [CommandOption.hasName]
  show ((c.options.filterMap fun o => o.policy.map (ArgumentOption.mk o.names)).find? _).map _ = _
  simp only [List.find?_filterMap, test]
  cases hfind : c.option? name with
  | none =>
    have absent : c.options.find? (fun o => o.policy.isSome && o.hasName name) = none := by
      rw [List.find?_eq_none]
      intro o ho h
      exact List.find?_eq_none.mp hfind o ho (Bool.and_eq_true_iff.mp h).2
    rw [absent]
    rfl
  | some o =>
    obtain ⟨ho, hname⟩ := Command.mem_of_option? hfind
    have unique : ∀ o' ∈ c.options, (o'.policy.isSome && o'.hasName name) = true → o' = o := fun o' ho' h =>
      Command.option_unique hnodup ho' ho (Command.mem_names_iff.mp (Bool.and_eq_true_iff.mp h).2) hname
    rw [find?_eq_of_unique ho unique, Command.mem_names_iff.mpr hname, Bool.and_true, Option.bind_some]
    cases hpolicy : o.policy with
    | none => rfl
    | some policy => simp [hpolicy]

theorem flatMap_argumentOptions (options : List CommandOption) :
    (ofOptions options).argumentOptions.flatMap (·.names) = (ofOptions options).arguments := by
  induction options with
  | nil => rfl
  | cons o options ih =>
    cases htakes : o.takesArgument with
    | false => simpa [ofOptions, CommandOption.policy, htakes] using ih
    | true => simpa [ofOptions, CommandOption.policy, htakes] using ih

/-- What the options of a command are sorted into, whatever else they say. -/
structure Partitions (table : OptionTable) (c : Command) : Prop where
  flags : table.flags = c.flagAliases
  arguments : table.arguments = c.argumentAliases
  perm : (table.flags ++ table.arguments).Perm (c.options.flatMap (·.names))
  nodup : (table.flags ++ table.arguments).Nodup
  argumentOptions : table.argumentOptions.flatMap (·.names) = table.arguments
  option : ∀ o ∈ c.options, ∀ name ∈ o.names, c.option? name = some o
  policy : ∀ name, table.policy? name = (c.option? name).bind CommandOption.policy

theorem partitions_ofOptions (hnodup : (c.options.flatMap (·.names)).Nodup) : (ofOptions c.options).Partitions c where
  flags := rfl
  arguments := rfl
  perm := c.perm_aliases
  nodup := c.perm_aliases.nodup_iff.mpr hnodup
  argumentOptions := flatMap_argumentOptions c.options
  option _ ho _ hname := Command.option?_eq_some hnodup ho hname
  policy := policy?_ofOptions hnodup

/-! ### One pass -/

instance : Append OptionTable where
  append t u := ⟨t.flags ++ u.flags, t.arguments ++ u.arguments, t.argumentOptions ++ u.argumentOptions⟩

theorem append_eq (t u : OptionTable) :
    t ++ u = ⟨t.flags ++ u.flags, t.arguments ++ u.arguments, t.argumentOptions ++ u.argumentOptions⟩ := rfl

theorem append_assoc (t u v : OptionTable) : t ++ u ++ v = t ++ (u ++ v) := by
  simp only [append_eq, List.append_assoc]

theorem append_ofOptions_nil (t : OptionTable) : t ++ ofOptions [] = t := by
  simp [append_eq, ofOptions]

theorem ofOptions_append (options more : List CommandOption) :
    ofOptions (options ++ more) = ofOptions options ++ ofOptions more := by
  simp [append_eq, ofOptions]

theorem ofOptions_flag {o : CommandOption} (h : o.policy = none) : ofOptions [o] = ⟨o.names, [], []⟩ := by
  have takes : o.takesArgument = false := by simpa [CommandOption.policy] using h
  simp [ofOptions, h, takes]

theorem ofOptions_argument {o : CommandOption} {policy : Policy} (h : o.policy = some policy) :
    ofOptions [o] = ⟨[], o.names, [⟨o.names, policy⟩]⟩ := by
  have takes : o.takesArgument = true := by
    cases htakes : o.takesArgument <;> simp [CommandOption.policy, htakes] at h ⊢
  simp [ofOptions, h, takes]

/-- How far a pass over the options of a command has come: the aliases that it has met, and the table so far. -/
structure Pass extends OptionTable where
  seen : List Text

/-- The pass goes on to one more option: first to its aliases, then to the values that are offered for it. -/
def Pass.add (command : Text) (p : Pass) (o : CommandOption) : Except Failure Pass := do
  if o.names.isEmpty then .error (.namelessOption command)
  let seen ← checkNames command p.seen o.names
  match o.policy with
  | none => return { p with seen, flags := p.flags ++ o.names }
  | some policy => do
    (policy.candidates.getD []).forM (checkWord command .completionValue)
    return { p with
      seen
      arguments := p.arguments ++ o.names
      argumentOptions := p.argumentOptions ++ [⟨o.names, policy⟩] }

/-- The table of a command by a single pass over its options. -/
def inOnePass (c : Command) : Except Failure OptionTable := do
  return (← c.options.foldlM (Pass.add c.name) ⟨⟨[], [], []⟩, []⟩).toOptionTable

variable {command : Text}

/-- A pass checks an option and then has it in the table. -/
theorem Pass.add_eq (p : Pass) (o : CommandOption) :
    p.add command o = (checkOption command p.seen o >>= fun seen => .ok ⟨p.toOptionTable ++ ofOptions [o], seen⟩) := by
  unfold add checkOption
  cases o.names.isEmpty with
  | true => rfl
  | false =>
    cases checkNames command p.seen o.names with
    | error f => rfl
    | ok seen =>
      cases hpolicy : o.policy with
      | none =>
        rw [ofOptions_flag hpolicy, append_eq, List.append_nil, List.append_nil]
        rfl
      | some policy =>
        rw [ofOptions_argument hpolicy, append_eq, List.append_nil, ok_bind, ok_bind, Option.bind_some]
        show ((policy.candidates.getD []).forM (checkWord command .completionValue) >>= fun _ => _) = _
        cases (policy.candidates.getD []).forM (checkWord command .completionValue) <;> rfl

theorem Pass.foldlM_add (p : Pass) (options : List CommandOption) :
    options.foldlM (Pass.add command) p =
      (options.foldlM (checkOption command) p.seen >>= fun seen =>
        .ok ⟨p.toOptionTable ++ ofOptions options, seen⟩) := by
  induction options generalizing p with
  | nil => rw [List.foldlM_nil, List.foldlM_nil, append_ofOptions_nil]; rfl
  | cons o options ih =>
    rw [List.foldlM_cons, List.foldlM_cons, add_eq, bind_assoc, bind_assoc]
    congr 1
    funext seen
    rw [ok_bind, ih, append_assoc, ← ofOptions_append, List.singleton_append]

/-- Checking all options before sorting them comes to the same as doing both in one pass. -/
theorem ofCommand_eq_inOnePass (c : Command) : ofCommand c = inOnePass c := by
  rw [inOnePass, Pass.foldlM_add, ofCommand, check, bind_assoc, bind_assoc]
  rfl

/-! ### Failures -/

theorem ofCommand_eq_report (c : Command) :
    ofCommand c = (report ((rules c.name).allDefects [] c.options) >>= fun _ => .ok (ofOptions c.options)) := by
  rw [ofCommand, check_eq_report]
  rfl

theorem ofCommand_eq_ok :
    ofCommand c = .ok table ↔
      ((∀ o ∈ c.options, o.Completable) ∧ (c.options.flatMap (·.names)).Nodup) ∧ table = ofOptions c.options := by
  rw [ofCommand_eq_report, bind_eq_ok, exists_unit, report_eq_ok, OptionRules.allDefects_eq_nil, List.flatMap_nil,
    fresh_of_nothing, Except.ok.injEq, eq_comm (a := table)]
  simp only [accepts_iff]

theorem ofCommand_eq_error {f : Failure} :
    ofCommand c = .error f ↔ ((rules c.name).allDefects [] c.options).head? = some f := by
  rw [ofCommand_eq_report, report_bind_eq_error]

/-- The ways in which options cannot be sorted. -/
inductive Flawed (options : List CommandOption) : Prop where
  | nameless {o : CommandOption} (ho : o ∈ options) (hnil : o.names = [])
  | name {o : CommandOption} {name : Text} (ho : o ∈ options) (hname : name ∈ o.names)
      (hword : name = [] ∨ name.hasSpace = true)
  | repeated (hnames : ¬(options.flatMap (·.names)).Nodup)
  | candidate {o : CommandOption} {values : List Text} {value : Text} (ho : o ∈ options)
      (htakes : o.takesArgument = true) (hvalues : o.candidates = some values) (hvalue : value ∈ values)
      (hword : value = [] ∨ value.hasSpace = true)

theorem not_isWord {t : Text} : ¬IsWord t ↔ t = [] ∨ t.hasSpace = true := by
  constructor
  · intro h
    by_contra hno
    obtain ⟨hne, hspace⟩ := not_or.mp hno
    exact h ⟨hne, by simpa using hspace⟩
  · rintro (rfl | hspace) ⟨hne, hspace'⟩
    · exact hne rfl
    · rw [hspace] at hspace'
      cases hspace'

theorem flawed_iff {options : List CommandOption} :
    Flawed options ↔ ¬((∀ o ∈ options, o.Completable) ∧ (options.flatMap (·.names)).Nodup) := by
  constructor
  · rintro (⟨ho, hnil⟩ | ⟨ho, hname, hword⟩ | hnames | ⟨ho, htakes, hvalues, hvalue, hword⟩) ⟨hoptions, hnodup⟩
    · exact (hoptions _ ho).names_ne_nil hnil
    · exact not_isWord.mpr hword ((hoptions _ ho).names _ hname)
    · exact hnames hnodup
    · exact not_isWord.mpr hword ((hoptions _ ho).values _ (CommandOption.mem_values.mpr ⟨htakes, _, hvalues, hvalue⟩))
  · intro h
    by_contra hno
    refine h ⟨fun o ho => ⟨fun hnil => ?_, fun name hname => ?_, fun value hvalue => ?_⟩, ?_⟩
    · exact hno (.nameless ho hnil)
    · by_contra hword
      exact hno (.name ho hname (not_isWord.mp hword))
    · by_contra hword
      obtain ⟨htakes, values, hvalues, hvalue⟩ := CommandOption.mem_values.mp hvalue
      exact hno (.candidate ho htakes hvalues hvalue (not_isWord.mp hword))
    · by_contra hnames
      exact hno (.repeated hnames)

/-- Sorting the options of a command is done in one pass. Either it makes a partition of the aliases, in which each
    alias leads to the policy of its option; or the options are flawed, and the failure is the first of their defects,
    in order of declaration and with the aliases of an option before its values. -/
theorem sorting_partitions_or_reports_first_defect (c : Command) :
    ofCommand c = inOnePass c ∧
      (∀ table, ofCommand c = .ok table → table.Partitions c) ∧
      ((∃ f, ofCommand c = .error f) ↔ Flawed c.options) ∧
      ∀ f, ofCommand c = .error f ↔ ((rules c.name).allDefects [] c.options).head? = some f := by
  refine ⟨ofCommand_eq_inOnePass c, ?_, ?_, fun f => ofCommand_eq_error⟩
  · intro table htable
    obtain ⟨⟨-, hnodup⟩, rfl⟩ := ofCommand_eq_ok.mp htable
    exact partitions_ofOptions hnodup
  · rw [flawed_iff]
    cases hresult : ofCommand c with
    | error f =>
      refine iff_of_true ⟨f, rfl⟩ fun h => ?_
      rw [ofCommand_eq_ok.mpr ⟨h, rfl⟩] at hresult
      cases hresult
    | ok table =>
      refine iff_of_false (fun ⟨f, h⟩ => by cases h) (not_not_intro ?_)
      exact (ofCommand_eq_ok.mp hresult).1

/-- A flag and two options with a value. -/
def mixed : Command where
  name := "demo".toList
  options := [.flag ["-h".toList, "--help".toList], (CommandOption.argument ["-m".toList]).withCandidates ["a".toList],
    (CommandOption.argument ["-f".toList, "--file".toList]).withFiles]

/-- The mixed options again, and then an alias of the first one with a value that is no word. -/
def muddled : Command :=
  { mixed with options := mixed.options ++ [(CommandOption.argument ["--help".toList]).withCandidates [[]]] }

theorem sorting_partitions_mixed_not_muddled :
    (∃ table, ofCommand mixed = .ok table ∧ table.Partitions mixed ∧ table.policy? "--file".toList = some .files) ∧
      ofCommand muddled = .error (.duplicateOption "demo".toList "--help".toList) ∧ Flawed muddled.options := by
  have sorted : ofCommand mixed = .ok (ofOptions mixed.options) := rfl
  have failed : ofCommand muddled = .error (.duplicateOption "demo".toList "--help".toList) := rfl
  obtain ⟨-, partitions, -, -⟩ := sorting_partitions_or_reports_first_defect mixed
  obtain ⟨-, -, flawed, -⟩ := sorting_partitions_or_reports_first_defect muddled
  exact ⟨⟨_, sorted, partitions _ sorted, rfl⟩, failed, flawed.mp ⟨_, failed⟩⟩

end OptionTable
end ShellCompletion

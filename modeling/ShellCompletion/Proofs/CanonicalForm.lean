import ShellCompletion.Proofs.Json.RoundTrip
import ShellCompletion.Proofs.SchemaAgreement
import ShellCompletion.Proofs.Text.Lines
import ShellCompletion.Schema.ToJson

/-! The canonical form of a model as a JSON text. What is read from it is the model, unless it is nested too deeply
    to be read at all. -/

namespace ShellCompletion

/-! ### Fields -/

namespace Source
variable {α : Type}

/-- The fields that have a value, each under its name. -/
def present : List Text → List (Option α) → List (Text × α)
  | name :: names, some a :: values => (name, a) :: present names values
  | _ :: names, none :: values => present names values
  | _, _ => []

theorem keys_present (names : List Text) (values : List (Option α)) :
    ((present names values).map (·.1)).Sublist names := by
  fun_induction present names values with
  | case1 name names a values ih => exact ih.cons_cons name
  | case2 name names values ih => exact ih.cons name
  | case3 => exact List.nil_sublist _

theorem lookup_present_of_notMem {names : List Text} {values : List (Option α)} {name : Text} (h : name ∉ names) :
    (present names values).lookup name = none := by
  rw [List.lookup_eq_none_iff]
  intro field hfield
  rw [bne_iff_ne]
  rintro rfl
  exact h ((keys_present names values).subset (List.mem_map_of_mem hfield))

theorem map_lookup_cons {names : List Text} {name : Text} (h : name ∉ names) (a : α) (fields : List (Text × α)) :
    names.map (((name, a) :: fields).lookup ·) = names.map (fields.lookup ·) := by
  refine List.map_congr_left fun other hother => ?_
  have hne : (other == name) = false := beq_false_of_ne (ne_of_mem_of_not_mem hother h)
  rw [List.lookup_cons, hne]

/-- Each name finds its value, or that it has none. -/
theorem map_lookup_present {names : List Text} {values : List (Option α)} (hnames : names.Nodup)
    (hlength : names.length = values.length) : names.map ((present names values).lookup ·) = values := by
  fun_induction present names values with
  | case1 name names a values ih =>
    obtain ⟨hname, hnames⟩ := List.nodup_cons.mp hnames
    rw [List.map_cons, List.lookup_cons_self, map_lookup_cons hname, ih hnames (Nat.succ.inj hlength)]
  | case2 name names values ih =>
    obtain ⟨hname, hnames⟩ := List.nodup_cons.mp hnames
    rw [List.map_cons, lookup_present_of_notMem hname, ih hnames (Nat.succ.inj hlength)]
  | case3 names values hsome hnone =>
    match names, values with
    | [], [] => rfl
    | _ :: _, some _ :: _ => exact absurd rfl (hsome _ _ _ _ rfl)
    | _ :: _, none :: _ => exact absurd rfl (hnone _ _ _ rfl)

theorem select?_present {names : List Text} {values : List (Option α)} (hnames : names.Nodup)
    (hlength : names.length = values.length) : select? names (present names values) = some values :=
  select?_eq_some.mpr ⟨⟨fun _ hkey => (keys_present names values).subset hkey,
    (keys_present names values).nodup hnames⟩, map_lookup_present hnames hlength⟩

end Source

namespace Json

/-- An optional field is read back, if no value is written as null. -/
theorem optional_map {β : Type} (write : β → Json) {read? : Json → Option β}
    (hsome : ∀ b, optional? (write b) = some (some (write b))) (hread : ∀ b, read? (write b) = some b)
    (x : Option β) : Source.optional read? (x.map write) = some x := by
  cases x with
  | none => rfl
  | some b => exact Source.optional_eq_some.mpr ⟨write b, hsome b, hread b⟩

theorem list?_texts (ts : List Text) : Source.list? Source.text? (texts ts) = some ts :=
  Text.mapM_map_eq_some fun _ _ => rfl

theorem isNumberless_texts (ts : List Text) : (texts ts).isNumberless = true := by
  rw [texts, isNumberless, areNumberless_iff]
  rintro j hj
  obtain ⟨t, -, rfl⟩ := List.mem_map.mp hj
  rfl

theorem itemsDepth_map {α : Type} (write : α → Json) {n : Nat} (h : ∀ a, (write a).depth = n) (l : List α) :
    itemsDepth (l.map write) = if l.isEmpty then 0 else n := by
  induction l with
  | nil => rfl
  | cons a l ih =>
    rw [List.map_cons, itemsDepth, h, ih]
    cases l <;> simp

theorem depth_texts (ts : List Text) : (texts ts).depth = 1 := by
  have hitems : itemsDepth (ts.map string) = if ts.isEmpty then 0 else 0 := itemsDepth_map string (fun _ => rfl) ts
  rw [texts, depth, hitems, ite_self]

end Json

/-! ### Options -/

namespace CommandOption
open Json

theorem toJson_eq (o : CommandOption) :
    o.toJson = object (Source.present Canonical.optionFields [some (texts o.names), some (bool o.takesArgument),
      o.candidates.map texts, some (bool o.fileValued), o.description.map string]) := by
  obtain ⟨names, takes, _ | candidates, files, _ | description⟩ := o <;> rfl

theorem record?_toJson (o : CommandOption) : Source.record? Canonical.optionFields o.toJson =
    some [some (texts o.names), some (bool o.takesArgument), o.candidates.map texts, some (bool o.fileValued),
      o.description.map string] := by
  rw [toJson_eq]
  exact Source.select?_present (by decide) rfl

theorem option?_toJson (o : CommandOption) : Canonical.option? o.toJson = some o :=
  Canonical.option?_eq_some.mpr ⟨_, _, _, _, _, record?_toJson o, list?_texts o.names, rfl,
    optional_map texts (fun _ => rfl) list?_texts o.candidates, rfl,
    optional_map string (fun _ => rfl) (fun _ => rfl) o.description⟩

theorem isNumberless_toJson (o : CommandOption) : o.toJson.isNumberless = true := by
  rw [toJson_eq]
  cases o.candidates <;> cases o.description <;>
    simp [Source.present, Canonical.optionFields, isNumberless, fieldsAreNumberless, isNumberless_texts]

/-- An option is an object that holds the list of its aliases. -/
theorem depth_toJson (o : CommandOption) : o.toJson.depth = 2 := by
  rw [toJson_eq]
  cases o.candidates <;> cases o.description <;>
    simp [Source.present, Canonical.optionFields, depth, fieldsDepth, depth_texts]

end CommandOption

/-! ### Commands -/

namespace Command
open Json

theorem toJson_eq (c : Command) :
    c.toJson = object (Source.present Canonical.commandFields [some (string c.name), c.description.map string,
      some (array (c.options.map CommandOption.toJson)), some (array (toJsonAll c.subcommands))]) := by
  obtain ⟨name, _ | description, options, subs⟩ := c <;> rfl

theorem record?_toJson (c : Command) : Source.record? Canonical.commandFields c.toJson =
    some [some (string c.name), c.description.map string, some (array (c.options.map CommandOption.toJson)),
      some (array (toJsonAll c.subcommands))] := by
  rw [toJson_eq]
  exact Source.select?_present (by decide) rfl

/-- A command without subcommands is an object that holds two lists, of which the first may hold options. Its
    subcommands are two levels below it. -/
theorem depth_toJson (c : Command) :
    c.toJson.depth = max (if c.options.isEmpty then 2 else 4) (itemsDepth (toJsonAll c.subcommands) + 2) := by
  have hoptions := itemsDepth_map CommandOption.toJson CommandOption.depth_toJson c.options
  have hfields : c.toJson.depth =
      max (itemsDepth (c.options.map CommandOption.toJson)) (itemsDepth (toJsonAll c.subcommands)) + 2 := by
    rw [toJson_eq]
    cases c.description <;> simp [Source.present, Canonical.commandFields, depth, fieldsDepth]
  rw [hfields, hoptions]
  split <;> omega

mutual

/-- A command is read back with as many levels as its canonical form is deep. -/
theorem commandWithin?_toJson : ∀ {c : Command} {levels : Nat}, c.toJson.depth ≤ levels →
    Canonical.commandWithin? levels c.toJson = some c
  | c, 0, h => by
    rw [depth_toJson] at h
    omega
  | ⟨name, description, options, subs⟩, levels + 1, h => by
    rw [depth_toJson] at h
    have hdepth : itemsDepth (toJsonAll subs) + 2 ≤ levels + 1 := Nat.le_trans (Nat.le_max_right _ _) h
    have hoptions : (options.map CommandOption.toJson).mapM Canonical.option? = some options :=
      Text.mapM_map_eq_some fun o _ => CommandOption.option?_toJson o
    have hsubs : (toJsonAll subs).mapM (Canonical.commandWithin? levels) = some subs :=
      mapM_commandWithin?_toJsonAll (by omega)
    exact Canonical.commandWithin?_eq_some.mpr ⟨_, _, _, _, record?_toJson _, rfl,
      optional_map string (fun _ => rfl) (fun _ => rfl) description, hoptions, hsubs⟩

theorem mapM_commandWithin?_toJsonAll : ∀ {cs : List Command} {levels : Nat}, itemsDepth (toJsonAll cs) ≤ levels →
    (toJsonAll cs).mapM (Canonical.commandWithin? levels) = some cs
  | [], _, _ => rfl
  | c :: cs, levels, h => by
    obtain ⟨hc, hcs⟩ := Nat.max_le.mp h
    exact mapM_cons_eq_some.mpr ⟨c, cs, commandWithin?_toJson hc, mapM_commandWithin?_toJsonAll hcs, rfl⟩

end

mutual

theorem isNumberless_toJson : ∀ c : Command, c.toJson.isNumberless = true
  | ⟨name, description, options, subs⟩ => by
    have hoptions : areNumberless (options.map CommandOption.toJson) = true :=
      areNumberless_iff.mpr (List.forall_mem_map.mpr fun o _ => o.isNumberless_toJson)
    have hsubs := areNumberless_toJsonAll subs
    rw [toJson_eq]
    cases description <;>
      simp [Source.present, Canonical.commandFields, isNumberless, fieldsAreNumberless, hoptions, hsubs]

theorem areNumberless_toJsonAll : ∀ cs : List Command, areNumberless (toJsonAll cs) = true
  | [] => rfl
  | c :: cs => Bool.and_eq_true_iff.mpr ⟨isNumberless_toJson c, areNumberless_toJsonAll cs⟩

end

/-- The canonical text of a model is read as that model. Where more arrays and objects stand inside one another than
    may be open at once the text is malformed, in the terse schema as well. -/
theorem ofText_canonical_text (c : Command) :
    ofText .json c.toJson.text = (if c.toJson.depth ≤ 127 then .ok c else .error .malformedJson) ∧
      Failure.malformedJson.kind = .config ∧
      Failure.malformedJson.message = "Configuration error: JSON parse error".toList := by
  refine ⟨?_, rfl, by decide⟩
  have hread : read? c.toJson.text = if c.toJson.depth ≤ 127 then some c.toJson else none :=
    read?_text c.isNumberless_toJson
  rw [ofText, ofSource, hread]
  by_cases h : c.toJson.depth ≤ 127
  · have hcommand : Canonical.command? c.toJson = some c := commandWithin?_toJson (Nat.le_succ_of_le h)
    simp only [if_pos h, Option.bind_some, hcommand]
  · -- A text that is too deep has no value at all, so the terse schema has nothing to read.
    simp only [if_neg h, Option.bind_none]

end Command

end ShellCompletion

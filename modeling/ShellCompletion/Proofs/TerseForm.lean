import ShellCompletion.Proofs.CanonicalForm
import ShellCompletion.Proofs.NestedCommands
import ShellCompletion.Proofs.Warnings

/-! Which models JSON texts in the terse schema describe. In such a text the subcommands of a command are the entries of
    an object, so that no two of them share a name, and a flag says nothing of a value. Conversely each model of this
    kind is read back from its terse form, unless that is nested too deeply to be read at all. -/

namespace ShellCompletion

/-! ### Mappings keyed by texts -/

namespace Value

/-- The entries of a mapping whose keys are texts. -/
def textKeyed (fields : List (Text × Value)) : List (Value × Value) := fields.map fun f => (.string f.1, f.2)

theorem hasRepeatedKey_textKeyed (seen : List Text) (fields : List (Text × Value)) :
    hasRepeatedKey (seen.map string) (textKeyed fields) = false ↔
      (fields.map (·.1)).Nodup ∧ ∀ name ∈ fields.map (·.1), name ∉ seen := by
  induction fields generalizing seen with
  | nil => simp [textKeyed, hasRepeatedKey]
  | cons f fields ih =>
    obtain ⟨key, v⟩ := f
    have before : (seen.map string).any (same · (string key)) = false ↔ key ∉ seen := by
      rw [List.any_map, List.any_eq_false, ← List.forall_mem_ne']
      exact forall₂_congr fun name _ => by simp [same]
    have rest : hasRepeatedKey (string key :: seen.map string) (textKeyed fields) = false ↔
        (fields.map (·.1)).Nodup ∧ ∀ name ∈ fields.map (·.1), name ∉ key :: seen := ih (key :: seen)
    show (_ || hasRepeatedKey (string key :: seen.map string) (textKeyed fields)) = false ↔ _
    rw [Bool.or_eq_false_iff, before, rest, List.map_cons, List.nodup_cons, List.forall_mem_cons]
    constructor
    · rintro ⟨hkey, hnodup, hapart⟩
      exact ⟨⟨fun hmem => hapart key hmem List.mem_cons_self, hnodup⟩, hkey,
        fun name hname hseen => hapart name hname (List.mem_cons_of_mem _ hseen)⟩
    · rintro ⟨⟨hfresh, hnodup⟩, hkey, hapart⟩
      refine ⟨hkey, hnodup, fun name hname hmem => ?_⟩
      rcases List.mem_cons.mp hmem with rfl | hseen
      · exact hfresh hname
      · exact hapart name hname hseen

theorem mapping?_textKeyed {fields : List (Text × Value)} {v : Value} :
    mapping? (textKeyed fields) = some v ↔ (fields.map (·.1)).Nodup ∧ v = .mapping (textKeyed fields) := by
  have unrepeated : hasRepeatedKey [] (textKeyed fields) = false ↔ (fields.map (·.1)).Nodup := by
    have apart := hasRepeatedKey_textKeyed [] fields
    simpa using apart
  rw [mapping?, Option.ite_none_left_eq_some, Bool.not_eq_true, unrepeated, Option.some.injEq, eq_comm (a := v)]

theorem record?_textKeyed (names : List Text) (fields : List (Text × Value)) :
    record? names (.mapping (textKeyed fields)) = Source.select? names fields := by
  have entries : entries? (.mapping (textKeyed fields)) = some (textKeyed fields) := rfl
  rw [record?, entries, Option.bind_eq_bind, Option.bind_some, textKeyed, Text.mapM_map_eq_some]
  · rfl
  · exact fun _ _ => rfl

theorem optional_string (t : Option Text) : Source.optional Source.text? (t.map string) = some t := by
  cases t <;> rfl

/-- The items of an untyped list are untyped values. -/
theorem list?_sequence (items : List Value) : Source.list? Source.value? (sequence items) = some items := by
  have same : items.mapM some = some items := by
    have mapped := List.mapM_pure (m := Option) (l := items) (f := id)
    rwa [List.map_id] at mapped
  exact same

/-- Are all mappings keyed by texts, each once? Only mappings inside mappings count, since no command stands in a
    list. -/
inductive Keyed : Value → Prop
  | null : Keyed .null
  | bool (b : Bool) : Keyed (.bool b)
  | number (n : Number) : Keyed (.number n)
  | string (t : Text) : Keyed (.string t)
  | sequence (items : List Value) : Keyed (.sequence items)
  | mapping {fields : List (Text × Value)} : (fields.map (·.1)).Nodup → (∀ f ∈ fields, Keyed f.2) →
    Keyed (.mapping (textKeyed fields))

/-- The entries of a mapping that is keyed by texts, each once. -/
def KeyedEntries (entries : List (Value × Value)) : Prop :=
  ∃ fields, entries = textKeyed fields ∧ (fields.map (·.1)).Nodup ∧ ∀ f ∈ fields, Keyed f.2

theorem keyedEntries_nil : KeyedEntries [] := ⟨[], rfl, List.nodup_nil, List.forall_mem_nil _⟩

mutual

/-- JSON has no other mappings. -/
theorem keyed_of_ofJson? : ∀ {j : Json} {v : Value}, ofJson? j = some v → Keyed v
  | .null, v, h => by cases h; exact .null
  | .bool b, v, h => by cases h; exact .bool b
  | .number n, v, h => by cases h; exact .number n
  | .string t, v, h => by cases h; exact .string t
  | .array items, v, h => by
    obtain ⟨vs, -, rfl⟩ := Option.map_eq_some_iff.mp h
    exact .sequence vs
  | .object fields, v, h => by
    obtain ⟨entries, hentries, hv⟩ := Option.bind_eq_some_iff.mp h
    obtain ⟨named, rfl, hnamed⟩ := keyed_of_ofJsonFields? hentries
    obtain ⟨hnodup, rfl⟩ := mapping?_textKeyed.mp hv
    exact .mapping hnodup hnamed
  | .flawed, v, h => by cases h

theorem keyed_of_ofJsonFields? : ∀ {fields : List (Text × Json)} {entries : List (Value × Value)},
    ofJsonFields? fields = some entries → ∃ named, entries = textKeyed named ∧ ∀ f ∈ named, Keyed f.2
  | [], entries, h => by
    cases h
    exact ⟨[], rfl, List.forall_mem_nil _⟩
  | (key, j) :: fields, entries, h => by
    obtain ⟨v, hv, h⟩ := Option.bind_eq_some_iff.mp h
    obtain ⟨rest, hrest, ⟨⟩⟩ := Option.bind_eq_some_iff.mp h
    obtain ⟨named, rfl, hnamed⟩ := keyed_of_ofJsonFields? hrest
    exact ⟨(key, v) :: named, rfl, List.forall_mem_cons.mpr ⟨keyed_of_ofJson? hv, hnamed⟩⟩

end

variable {v x : Value} {entries : List (Value × Value)}

theorem Keyed.keyedEntries (hv : v.Keyed) (h : v.entries? = some entries) : KeyedEntries entries := by
  cases hv with
  | null =>
    cases h
    exact keyedEntries_nil
  | mapping hnodup hbelow =>
    cases h
    exact ⟨_, rfl, hnodup, hbelow⟩
  | _ => cases h

theorem keyedEntries_of_json {j : Json} (h : j.entries? = some entries) : KeyedEntries entries := by
  cases j with
  | object fields =>
    have hmapping : ofJson? (.object fields) = some (.mapping entries) := by
      unfold Json.entries? at h
      dsimp only at h
      split at h
      · next hv =>
        cases h
        exact hv
      · cases h
    exact (keyed_of_ofJson? hmapping).keyedEntries rfl
  | _ => cases h

theorem Keyed.field {names : List Text} {values : List (Option Value)} (hv : v.Keyed)
    (h : v.record? names = some values) (hx : some x ∈ values) : x.Keyed := by
  obtain ⟨entries, hentries, -⟩ := Option.bind_eq_some_iff.mp h
  obtain ⟨fields, rfl, -, hbelow⟩ := hv.keyedEntries hentries
  have selected : Source.select? names fields = some values := by
    rw [← record?_textKeyed, ← h, record?, record?, hentries]
    rfl
  obtain ⟨-, rfl⟩ := Source.select?_eq_some.mp selected
  obtain ⟨name, -, hlookup⟩ := List.mem_map.mp hx
  obtain ⟨before, after, rfl, -⟩ := List.lookup_eq_some_iff.mp hlookup
  exact hbelow _ (List.mem_append_right _ List.mem_cons_self)

end Value

/-! ### Models that are declared -/

/-- What the terse schema can say of a command: its subcommands have different names, and its flags say nothing of a
    value. -/
structure Command.Declarable (c : Command) : Prop where
  subcommands : c.subcommandNames.Nodup
  flags : ∀ o ∈ c.options, o.takesArgument = false → o.candidates = none ∧ o.fileValued = false

instance (c : Command) : Decidable c.Declarable :=
  decidable_of_iff (c.subcommandNames.Nodup ∧
      ∀ o ∈ c.options, o.takesArgument = false → o.candidates = none ∧ o.fileValued = false)
    ⟨fun ⟨hsubs, hflags⟩ => ⟨hsubs, hflags⟩, fun ⟨hsubs, hflags⟩ => ⟨hsubs, hflags⟩⟩

theorem Command.Declarable.warnings_eq_nil {c : Command} (hc : c.Declarable) : c.warnings = [] := by
  rw [warnings, List.flatMap_eq_nil_iff]
  intro o ho
  cases htakes : o.takesArgument with
  | true => rfl
  | false =>
    obtain ⟨hcandidates, hfiles⟩ := hc.flags o ho htakes
    simp [Validation.flagWarnings, hcandidates, hfiles]

namespace Terse
open Source

theorem keyedEntries_subcommands {v : Value} {e : CommandEntry} (hv : v.Keyed) (h : commandEntry? v = some e) :
    Value.KeyedEntries e.subcommands := by
  obtain ⟨n, d, o, s, hfields, -, -, -, hsubs⟩ := commandEntry?_eq_some.mp h
  cases s with
  | none =>
    rw [← Option.some.inj hsubs]
    exact Value.keyedEntries_nil
  | some x => exact (hv.field hfields (by simp)).keyedEntries hsubs

theorem keyedEntries_subcommands_of_json {j : Json} {e : CommandEntry} (h : commandEntry? j = some e) :
    Value.KeyedEntries e.subcommands := by
  obtain ⟨n, d, o, s, -, -, -, -, hsubs⟩ := commandEntry?_eq_some.mp h
  cases s with
  | none =>
    rw [← Option.some.inj hsubs]
    exact Value.keyedEntries_nil
  | some x => exact Value.keyedEntries_of_json hsubs

theorem option_of_flag {command : Text} {d : OptionEntry} {o : CommandOption} (h : option command d = .ok o)
    (hflag : o.takesArgument = false) : o.candidates = none ∧ o.fileValued = false := by
  obtain ⟨kind, -, h⟩ := bind_eq_ok.mp h
  cases hvalues : d.values with
  | none =>
    rw [hvalues] at h
    cases h
    cases kind with
    | boolean => exact ⟨rfl, rfl⟩
    | _ => cases hflag
  | some values =>
    rw [hvalues] at h
    dsimp only at h
    split at h
    · next htakes =>
      cases h
      rw [show kind.takesArgument = false from hflag] at htakes
      cases htakes
    · cases h

theorem names_of_declares {levels : Nat} {command : Text} {fields : List (Text × Value)} {subs : List Command}
    (h : List.Forall₂ (Declares levels command) (Value.textKeyed fields) subs) :
    subs.map (·.name) = fields.map (·.1) := by
  rw [Value.textKeyed, List.forall₂_map_left_iff] at h
  refine (map_eq_of_forall₂ ?_ h).symm
  rintro f sub ⟨hname, -⟩
  exact Except.ok.inj hname

/-- All commands of a tree are declarable whose declaration has no other mappings than keyed ones. -/
theorem declarable_of_commandWithin {levels : Nat} {name : Text} {e : CommandEntry} {c : Command}
    (h : commandWithin levels name e = .ok c) (he : Value.KeyedEntries e.subcommands) :
    ∀ {above : List Text}, ∀ node ∈ c.nodesBelow above, node.command.Declarable := by
  induction levels using Nat.strongRecOn generalizing name e c with
  | ind levels ih =>
    obtain ⟨fields, hentries, hnodup, hkeyed⟩ := he
    obtain ⟨-, -, hoptions, hsubs⟩ := commandWithin_eq_ok_iff.mp h
    rw [hentries] at hsubs
    intro above node hnode
    rcases Command.mem_nodesBelow.mp hnode with rfl | ⟨sub, hsub, hnode⟩
    · refine ⟨?_, fun o ho hflag => ?_⟩
      · rw [Command.subcommandNames, names_of_declares hsubs]
        exact hnodup
      · obtain ⟨d, -, hd⟩ := exists_of_forall₂ hoptions.flip ho
        exact option_of_flag hd hflag
    · obtain ⟨entry, hentry, -, subentry, hsubentry, below, hbelow, hdeclared⟩ := exists_of_forall₂ hsubs.flip hsub
      obtain ⟨f, hf, rfl⟩ := List.mem_map.mp hentry
      refine ih below (by omega) hdeclared ?_ node hnode
      have read := declaration?_of_subcommandEntry hsubentry
      unfold declaration? at read
      split at read
      · cases read
        exact Value.keyedEntries_nil
      · exact keyedEntries_subcommands (hkeyed f hf) read

end Terse

theorem Format.declarable_of_terse? {t : Text} {model : Command} (h : Format.json.terse? t = some model) :
    ∀ node ∈ model.nodes, node.command.Declarable := by
  obtain ⟨e, he, hmodel⟩ := Option.bind_eq_some_iff.mp h
  obtain ⟨j, -, hj⟩ := Option.bind_eq_some_iff.mp he
  obtain ⟨name, -, hwithin⟩ := Terse.model_eq_ok (toOption_eq_some.mp hmodel)
  exact Terse.declarable_of_commandWithin hwithin (Terse.keyedEntries_subcommands_of_json hj)

/-! ### The terse form -/

namespace Source
variable {α β : Type}

/-- A field that is written or left out. -/
def writtenIf (isWritten : Bool) (x : α) : Option α := if isWritten then some x else none

theorem withDefault_writtenIf {isWritten : Bool} {x : α} {read? : α → Option (List β)} {l : List β}
    (hread : read? x = some l) (hnil : isWritten = false → l = []) :
    withDefault [] read? (writtenIf isWritten x) = some l := by
  cases isWritten with
  | true => exact hread
  | false =>
    rw [hnil rfl]
    rfl

end Source

/-- The kind by which the terse schema declares an option, apart from its values. -/
def CommandOption.declaredKind (o : CommandOption) : ValueKind :=
  if o.takesArgument then if o.fileValued then .file else .string else .boolean

/-- An option in the terse schema. -/
def CommandOption.toTerse (o : CommandOption) : Json :=
  .object (Source.present Terse.optionFields [some (.texts o.names), some (.string o.declaredKind.name),
    o.candidates.map .texts, o.description.map .string])

mutual

/-- A command in the terse schema. Its name is written only at the root, and empty lists and objects if `explicit`. -/
def Command.toTerse (explicit : Bool) (name : Option Text) : Command → Json
  | ⟨_, description, options, subs⟩ =>
    .object (Source.present Terse.commandFields [name.map .string, description.map .string,
      Source.writtenIf (explicit || !options.isEmpty) (.array (options.map CommandOption.toTerse)),
      Source.writtenIf (explicit || !subs.isEmpty) (.object (Command.toTerseAll explicit subs))])

def Command.toTerseAll (explicit : Bool) : List Command → List (Text × Json)
  | [] => []
  | c :: cs => (c.name, c.toTerse explicit none) :: Command.toTerseAll explicit cs

end

namespace Json

theorem isNumberless_present {names : List Text} {values : List (Option Json)}
    (h : ∀ x ∈ values, x.all isNumberless = true) :
    (object (Source.present names values)).isNumberless = true := by
  show fieldsAreNumberless (Source.present names values) = true
  fun_induction Source.present names values with
  | case1 name names j values ih =>
    obtain ⟨hj, hvalues⟩ := List.forall_mem_cons.mp h
    exact Bool.and_eq_true_iff.mpr ⟨hj, ih hvalues⟩
  | case2 name names values ih => exact ih (List.forall_mem_cons.mp h).2
  | case3 => rfl

theorem isNumberless_string (t : Option Text) : (t.map string).all isNumberless = true := by
  cases t <;> rfl

theorem isNumberless_writtenIf (isWritten : Bool) {j : Json} (hj : j.isNumberless = true) :
    (Source.writtenIf isWritten j).all isNumberless = true := by
  cases isWritten with
  | true => exact hj
  | false => rfl

theorem depth_lt_of_mem {fields : List (Text × Json)} {f : Text × Json} (h : f ∈ fields) :
    f.2.depth < (object fields).depth := by
  rw [depth]
  induction fields with
  | nil => cases h
  | cons g fields ih =>
    rw [fieldsDepth]
    rcases List.mem_cons.mp h with rfl | h
    · omega
    · have := ih h
      omega

theorem depth_lt_of_select? {names : List Text} {fields : List (Text × Json)} {values : List (Option Json)} {j : Json}
    (h : Source.select? names fields = some values) (hj : some j ∈ values) : j.depth < (object fields).depth := by
  obtain ⟨-, rfl⟩ := Source.select?_eq_some.mp h
  obtain ⟨name, -, hlookup⟩ := List.mem_map.mp hj
  obtain ⟨before, after, rfl, -⟩ := List.lookup_eq_some_iff.mp hlookup
  have hmem : (name, j) ∈ before ++ (name, j) :: after := List.mem_append_right _ List.mem_cons_self
  exact depth_lt_of_mem hmem

/-! ### Values of records -/

theorem ofJson?_texts (ts : List Text) : Value.ofJson? (texts ts) = some (.sequence (ts.map .string)) := by
  have items : (ts.map string).mapM Value.ofJson? = some (ts.map .string) := by
    rw [List.mapM_map]
    exact List.mapM_pure (m := Option)
  rw [texts, Value.ofJson?, ofJsonItems?_eq, items]
  rfl

/-- Does a field denote a value, or is it left out like the value? -/
abbrev Denotes : Option Json → Option Value → Prop := Option.Rel fun j v => Value.ofJson? j = some v

theorem ofJsonFields?_present {names : List Text} {js : List (Option Json)} {vs : List (Option Value)}
    (h : List.Forall₂ Denotes js vs) :
    Value.ofJsonFields? (Source.present names js) = some (Value.textKeyed (Source.present names vs)) := by
  induction h generalizing names with
  | nil => cases names <;> rfl
  | cons hjv _ ih =>
    cases names with
    | nil => cases hjv <;> rfl
    | cons name names =>
      cases hjv with
      | none => exact ih
      | some hv =>
        rw [Source.present, Value.ofJsonFields?, hv, ih]
        rfl

theorem denotes_string (t : Option Text) : Denotes (t.map string) (t.map .string) := by
  cases t with
  | none => exact .none
  | some t => exact .some rfl

theorem denotes_writtenIf (isWritten : Bool) {j : Json} {v : Value} (h : Value.ofJson? j = some v) :
    Denotes (Source.writtenIf isWritten j) (Source.writtenIf isWritten v) := by
  cases isWritten with
  | true => exact .some h
  | false => exact .none

/-- A record denotes a record of the values of its fields. -/
theorem exists_record (names : List Text) {js : List (Option Json)} {vs : List (Option Value)}
    (hnames : names.Nodup) (hlength : names.length = vs.length) (h : List.Forall₂ Denotes js vs) :
    ∃ v, Value.ofJson? (object (Source.present names js)) = some v ∧ v ≠ .null ∧
      Source.record? names v = some vs := by
  have keys : ((Source.present names vs).map (·.1)).Nodup := (Source.keys_present names vs).nodup hnames
  refine ⟨.mapping (Value.textKeyed (Source.present names vs)), ?_, nofun, ?_⟩
  · rw [Value.ofJson?, ofJsonFields?_present h, Option.bind_some]
    exact Value.mapping?_textKeyed.mpr ⟨keys, rfl⟩
  · exact (Value.record?_textKeyed names _).trans (Source.select?_present hnames hlength)

end Json

/-! ### Options -/

namespace CommandOption
open Json Source

/-- What the terse form of an option declares. -/
def declaration (o : CommandOption) : Terse.OptionEntry where
  names := o.names
  kind := some o.declaredKind.name
  values := o.candidates.map (·.map .string)
  description := o.description

theorem optionEntry?_toTerse (o : CommandOption) : Terse.optionEntry? o.toTerse = some o.declaration := by
  have fields : Source.record? Terse.optionFields o.toTerse = some [some (texts o.names),
      some (string o.declaredKind.name), o.candidates.map texts, o.description.map string] :=
    Source.select?_present (by decide) rfl
  have names : (Value.ofJson? (texts o.names)).bind Terse.namesOf? = some o.names := by
    rw [ofJson?_texts]
    exact Text.mapM_map_eq_some fun _ _ => rfl
  refine Terse.optionEntry?_eq_some.mpr ⟨_, _, _, _, fields, names, rfl, ?_,
    optional_map string (fun _ => rfl) (fun _ => rfl) o.description⟩
  cases hcandidates : o.candidates with
  | none => rw [declaration, hcandidates]; rfl
  | some candidates =>
    have values : (candidates.map string).mapM Value.ofJson? = some (candidates.map .string) := by
      rw [List.mapM_map]
      exact List.mapM_pure (m := Option)
    rw [declaration, hcandidates]
    exact Source.optional_eq_some.mpr ⟨_, rfl, values⟩

theorem isNumberless_toTerse (o : CommandOption) : o.toTerse.isNumberless = true := by
  refine isNumberless_present ?_
  simp only [List.forall_mem_cons]
  refine ⟨isNumberless_texts o.names, rfl, ?_, isNumberless_string o.description, List.forall_mem_nil _⟩
  cases o.candidates with
  | none => rfl
  | some ts => exact isNumberless_texts ts

theorem exists_value (o : CommandOption) :
    ∃ v, Value.ofJson? o.toTerse = some v ∧ Terse.optionEntry? v = some o.declaration := by
  have fields : List.Forall₂ Denotes [some (texts o.names), some (string o.declaredKind.name), o.candidates.map texts,
      o.description.map string] [some (.sequence (o.names.map .string)), some (.string o.declaredKind.name),
      o.candidates.map fun ts => .sequence (ts.map .string), o.description.map .string] := by
    refine .cons (.some (ofJson?_texts _)) (.cons (.some rfl) (.cons ?_ (.cons (denotes_string _) .nil)))
    cases o.candidates with
    | none => exact .none
    | some ts => exact .some (ofJson?_texts ts)
  obtain ⟨v, hv, -, hrecord⟩ := exists_record Terse.optionFields (by decide) rfl fields
  refine ⟨v, hv, Terse.optionEntry?_eq_some.mpr ⟨_, _, _, _, hrecord, ?_, rfl, ?_, ?_⟩⟩
  · exact Text.mapM_map_eq_some fun _ _ => rfl
  · cases hcandidates : o.candidates with
    | none => rw [declaration, hcandidates]; rfl
    | some candidates =>
      rw [declaration, hcandidates]
      exact Source.optional_eq_some.mpr ⟨_, rfl, Value.list?_sequence _⟩
  · exact Value.optional_string o.description

theorem ofText?_declaredKind (o : CommandOption) : ValueKind.ofText? o.declaredKind.name = some o.declaredKind := by
  unfold declaredKind
  split
  · split <;> rfl
  · rfl

/-- The declaration of an option means the option. -/
theorem option_declaration {o : CommandOption} (command : Text)
    (hflag : o.takesArgument = false → o.candidates = none ∧ o.fileValued = false) :
    Terse.option command o.declaration = .ok o := by
  have kind : Terse.kindOf command o.declaration = .ok o.declaredKind := by
    rw [Terse.kindOf, declaration]
    dsimp only
    rw [ofText?_declaredKind]
  have words : ∀ ts : List Text, (ts.map Value.string).filterMap Terse.word? = ts := fun ts => by
    rw [List.filterMap_map]
    exact List.filterMap_some
  rw [Terse.option, kind, ok_bind]
  obtain ⟨names, takes, candidates, files, description⟩ := o
  cases takes with
  | false =>
    obtain ⟨rfl, rfl⟩ := hflag rfl
    rfl
  | true =>
    cases candidates with
    | none => cases files <;> rfl
    | some ts =>
      rw [declaration, Option.map_some]
      dsimp only
      rw [words]
      cases files <;> rfl

end CommandOption

/-! ### Commands -/

namespace Command
open Json Source
variable {explicit : Bool} {levels : Nat}

/-- What the terse form of a command declares, with its subcommands as untyped values. -/
def declaration (c : Command) (name : Option Text) (entries : List (Value × Value)) : Terse.CommandEntry where
  name := name
  description := c.description
  options := c.options.map CommandOption.declaration
  subcommands := entries

theorem commandWithin_declaration {c : Command} (hc : c.Declarable) {name : Option Text}
    {entries : List (Value × Value)} (hsubs : List.Forall₂ (Terse.Declares levels c.name) entries c.subcommands) :
    Terse.commandWithin levels c.name (c.declaration name entries) = .ok c := by
  refine Terse.commandWithin_eq_ok_iff.mpr ⟨rfl, rfl, ?_, hsubs⟩
  rw [declaration, List.forall₂_map_left_iff, List.forall₂_same]
  exact fun o ho => CommandOption.option_declaration c.name (hc.flags o ho)

theorem eq_nil_of_not_written {α : Type} {l : List α} (h : (explicit || !l.isEmpty) = false) : l = [] := by
  obtain ⟨-, hl⟩ := Bool.or_eq_false_iff.mp h
  simpa using hl

/-- A record that says of a command what its terse form says declares the same. -/
theorem commandEntry?_of_record? {α : Type} [Source α] {x o s : α} {n d : Option α} {c : Command} {name : Option Text}
    {fields : List (Text × Value)} (hfields : record? Terse.commandFields x = some
      [n, d, writtenIf (explicit || !c.options.isEmpty) o, writtenIf (explicit || !c.subcommands.isEmpty) s])
    (hname : optional Source.text? n = some name) (hdescription : optional Source.text? d = some c.description)
    (hoptions : list? Terse.optionEntry? o = some (c.options.map CommandOption.declaration))
    (hentries : Source.entries? s = some (Value.textKeyed fields)) (hnames : fields.map (·.1) = c.subcommandNames) :
    Terse.commandEntry? x = some (c.declaration name (Value.textKeyed fields)) := by
  refine Terse.commandEntry?_eq_some.mpr ⟨_, _, _, _, hfields, hname, hdescription,
    withDefault_writtenIf hoptions fun h => ?_, withDefault_writtenIf hentries fun h => ?_⟩
  · rw [declaration, eq_nil_of_not_written h]
    rfl
  · rw [subcommandNames, eq_nil_of_not_written h] at hnames
    rw [List.map_eq_nil_iff.mp hnames]
    rfl

theorem select?_toTerse (explicit : Bool) (name : Option Text) (c : Command) :
    ∃ fields, c.toTerse explicit name = object fields ∧
      select? Terse.commandFields fields = some [name.map string, c.description.map string,
        writtenIf (explicit || !c.options.isEmpty) (array (c.options.map CommandOption.toTerse)),
        writtenIf (explicit || !c.subcommands.isEmpty) (object (toTerseAll explicit c.subcommands))] := by
  obtain ⟨own, description, options, subs⟩ := c
  exact ⟨_, rfl, select?_present (by decide) rfl⟩

/-- Subcommands are at least two levels below their command. -/
theorem fieldsDepth_toTerseAll {name : Option Text} {c : Command} (h : (c.toTerse explicit name).depth ≤ levels + 1) :
    fieldsDepth (toTerseAll explicit c.subcommands) ≤ levels := by
  cases hwritten : explicit || !c.subcommands.isEmpty with
  | false =>
    rw [eq_nil_of_not_written hwritten]
    exact Nat.zero_le _
  | true =>
    obtain ⟨fields, hfields, hselect⟩ := select?_toTerse explicit name c
    rw [hwritten] at hselect
    have below := depth_lt_of_select? hselect (List.mem_of_getElem? (i := 3) rfl)
    rw [← hfields, depth] at below
    omega

theorem toTerse_levels {name : Option Text} {c : Command} : 0 < (c.toTerse explicit name).depth := by
  obtain ⟨fields, hfields, -⟩ := select?_toTerse explicit name c
  rw [hfields, depth]
  exact Nat.succ_pos _

theorem exists_values_options (options : List CommandOption) :
    ∃ vs, Value.ofJson? (array (options.map CommandOption.toTerse)) = some (.sequence vs) ∧
      vs.mapM Terse.optionEntry? = some (options.map CommandOption.declaration) := by
  induction options with
  | nil => exact ⟨[], rfl, rfl⟩
  | cons o options ih =>
    obtain ⟨vs, hvs, hread⟩ := ih
    obtain ⟨v, hv, ho⟩ := o.exists_value
    obtain ⟨_, hitems, ⟨⟩⟩ := Option.map_eq_some_iff.mp hvs
    refine ⟨v :: vs, ?_, mapM_cons_eq_some.mpr ⟨_, _, ho, hread, rfl⟩⟩
    rw [List.map_cons, Value.ofJson?, Value.ofJsonItems?, hv, hitems]
    rfl

mutual

/-- Below another command the terse form of a command declares that command. -/
theorem declares : ∀ {c : Command} {levels : Nat}, (∀ d ∈ c.lastFirst, d.Declarable) →
    (c.toTerse explicit none).depth ≤ levels → ∃ v e, Value.ofJson? (c.toTerse explicit none) = some v ∧ v ≠ .null ∧
      Terse.commandEntry? v = some e ∧ e.name = none ∧ Terse.commandWithin levels c.name e = .ok c
  | c, 0, _, hdepth => absurd hdepth (Nat.not_le.mpr toTerse_levels)
  | ⟨name, description, options, subs⟩, levels + 1, hc, hdepth => by
    obtain ⟨hroot, hbelow⟩ := List.forall_mem_cons.mp hc
    obtain ⟨fields, hfields, hnames, hdeclares⟩ := declaresAll name hbelow (fieldsDepth_toTerseAll hdepth)
    obtain ⟨vs, hvs, hoptions⟩ := exists_values_options options
    have subsValue : Value.ofJson? (object (toTerseAll explicit subs)) = some (.mapping (Value.textKeyed fields)) := by
      rw [Value.ofJson?, hfields, Option.bind_some]
      exact Value.mapping?_textKeyed.mpr ⟨hnames ▸ hroot.subcommands, rfl⟩
    obtain ⟨v, hv, hne, hrecord⟩ := exists_record Terse.commandFields (by decide) rfl
      (.cons .none (.cons (denotes_string description) (.cons (denotes_writtenIf (explicit || !options.isEmpty) hvs)
        (.cons (denotes_writtenIf (explicit || !subs.isEmpty) subsValue) .nil))))
    have entry : Terse.commandEntry? v =
        some (declaration ⟨name, description, options, subs⟩ none (Value.textKeyed fields)) :=
      commandEntry?_of_record? hrecord rfl (Value.optional_string description) hoptions rfl hnames
    exact ⟨v, _, hv, hne, entry, rfl, commandWithin_declaration hroot hdeclares⟩

theorem declaresAll (command : Text) : ∀ {cs : List Command} {levels : Nat}, (∀ d ∈ lastFirstAll cs, d.Declarable) →
    fieldsDepth (toTerseAll explicit cs) ≤ levels →
      ∃ fields, Value.ofJsonFields? (toTerseAll explicit cs) = some (Value.textKeyed fields) ∧
        fields.map (·.1) = cs.map (·.name) ∧
        List.Forall₂ (Terse.Declares (levels + 1) command) (Value.textKeyed fields) cs
  | [], _, _, _ => ⟨[], rfl, rfl, .nil⟩
  | c :: cs, levels, hcs, hdepth => by
    obtain ⟨hrest, hc⟩ := List.forall_mem_append.mp hcs
    obtain ⟨hdepth, hdepths⟩ := Nat.max_le.mp hdepth
    obtain ⟨v, e, hv, hne, hread, hunnamed, hmeaning⟩ := declares hc hdepth
    obtain ⟨fields, hfields, hnames, hdeclares⟩ := declaresAll command hrest hdepths
    refine ⟨(c.name, v) :: fields, ?_, congrArg (c.name :: ·) hnames,
      .cons ⟨rfl, e, ?_, levels, rfl, hmeaning⟩ hdeclares⟩
    · rw [toTerseAll, Value.ofJsonFields?, hv, hfields]
      rfl
    · exact (Yaml.Node.subcommandEntry_eq_ok hne).mpr ⟨hread, hunnamed⟩

end

theorem lastFirst_eq_cons (c : Command) : c.lastFirst = c :: lastFirstAll c.subcommands := by
  obtain ⟨name, description, options, subs⟩ := c
  rfl

/-- The terse form of a model declares that model. -/
theorem exists_declaration {c : Command} (hc : ∀ node ∈ c.nodes, node.command.Declarable)
    (hdepth : (c.toTerse explicit (some c.name)).depth ≤ 127) :
    ∃ e, Terse.commandEntry? (c.toTerse explicit (some c.name)) = some e ∧ Terse.model e = .ok c := by
  have hvisited := forall_mem_lastFirst.mpr hc
  rw [lastFirst_eq_cons] at hvisited
  obtain ⟨hroot, hbelow⟩ := List.forall_mem_cons.mp hvisited
  obtain ⟨fields, hfields, hnames, hdeclares⟩ := declaresAll c.name hbelow
    (fieldsDepth_toTerseAll (Nat.le_succ_of_le hdepth))
  have mapping : Value.mapping? (Value.textKeyed fields) = some (.mapping (Value.textKeyed fields)) :=
    Value.mapping?_textKeyed.mpr ⟨hnames ▸ hroot.subcommands, rfl⟩
  have entries : Json.entries? (object (toTerseAll explicit c.subcommands)) = some (Value.textKeyed fields) := by
    rw [Json.entries?, hfields, Option.bind_some, mapping]
  have options : (c.options.map CommandOption.toTerse).mapM Terse.optionEntry? =
      some (c.options.map CommandOption.declaration) := by
    rw [mapM_eq_some, List.forall₂_map_left_iff, List.forall₂_map_right_iff, List.forall₂_same]
    exact fun o _ => o.optionEntry?_toTerse
  obtain ⟨written, hwritten, hselect⟩ := select?_toTerse explicit (some c.name) c
  refine ⟨c.declaration (some c.name) (Value.textKeyed fields), ?_, commandWithin_declaration hroot hdeclares⟩
  rw [hwritten]
  have description : Source.optional Source.text? (c.description.map string) = some c.description :=
    optional_map string (fun _ => rfl) (fun _ => rfl) c.description
  exact commandEntry?_of_record? hselect rfl description options entries hnames

mutual

theorem isNumberless_toTerse {name : Option Text} : ∀ c : Command, (c.toTerse explicit name).isNumberless = true
  | ⟨_, description, options, subs⟩ => by
    have hoptions : (array (options.map CommandOption.toTerse)).isNumberless = true := by
      rw [isNumberless, areNumberless_iff, List.forall_mem_map]
      exact fun o _ => o.isNumberless_toTerse
    have hsubs : (object (toTerseAll explicit subs)).isNumberless = true := fieldsAreNumberless_toTerseAll subs
    rw [toTerse]
    refine isNumberless_present ?_
    rw [List.forall_mem_cons, List.forall_mem_cons, List.forall_mem_cons, List.forall_mem_cons]
    exact ⟨isNumberless_string name, isNumberless_string description, isNumberless_writtenIf _ hoptions,
      isNumberless_writtenIf _ hsubs, List.forall_mem_nil _⟩

theorem fieldsAreNumberless_toTerseAll : ∀ cs : List Command, fieldsAreNumberless (toTerseAll explicit cs) = true
  | [] => rfl
  | c :: cs => Bool.and_eq_true_iff.mpr ⟨isNumberless_toTerse c, fieldsAreNumberless_toTerseAll cs⟩

end

/-! ### Texts -/

theorem ofText_of_terse? {format : Format} {t : Text} {model : Command} (h : format.terse? t = some model) :
    ofText format t = .ok model := by
  have agree : Agree (format.canonical? t) (format.terse? t) := by
    cases format <;> exact documents_agree _
  have read := toOption_ofText format t
  rw [agree.or_comm, h, Option.some_or] at read
  exact toOption_eq_some.mp read

theorem terse?_of_ofText? {model : Command} (hmodel : ∀ node ∈ model.nodes, node.command.Declarable)
    (hdepth : (model.toTerse explicit (some model.name)).depth ≤ 127) {t : Text}
    (ht : Json.ofText? t = some (model.toTerse explicit (some model.name))) : Format.json.terse? t = some model := by
  obtain ⟨e, he, hmeaning⟩ := exists_declaration hmodel hdepth
  have sound : isSound Json.levelLimit (model.toTerse explicit (some model.name)) = true :=
    (isSound_iff (isNumberless_toTerse model)).mpr hdepth
  have read : Json.read? t = some (model.toTerse explicit (some model.name)) := by
    rw [Json.read?, ht, Option.filter_some, if_pos sound]
  rw [Format.terse?, read, Option.bind_some, he, Option.bind_some, hmeaning]
  rfl

/-- What is read from JSON in the terse schema is a model whose commands are all declarable, so that validation warns of
    nothing. Conversely each such model is read from every text of its terse form, with or without empty lists in it, as
    long as no more arrays and objects stand inside one another than may be open at once. -/
theorem declarable_models_are_read_tersely :
    (∀ t model, Format.json.terse? t = some model → ofText .json t = .ok model ∧
      (∀ node ∈ model.nodes, node.command.Declarable) ∧ ∀ mode, (model.validate mode).events = []) ∧
    ∀ (explicit : Bool) (model : Command), (∀ node ∈ model.nodes, node.command.Declarable) →
      (model.toTerse explicit (some model.name)).depth ≤ 127 →
        Json.ofText? (model.toTerse explicit (some model.name)).text = some (model.toTerse explicit (some model.name)) ∧
          ∀ t, Json.ofText? t = some (model.toTerse explicit (some model.name)) →
            Format.json.terse? t = some model ∧ ofText .json t = .ok model := by
  refine ⟨fun t model h => ?_, fun explicit model hmodel hdepth => ⟨Json.ofText?_text (isNumberless_toTerse model), ?_⟩⟩
  · have declarable := Format.declarable_of_terse? h
    exact ⟨ofText_of_terse? h, declarable,
      Validation.events_validate_eq_nil fun node hnode => (declarable node hnode).warnings_eq_nil⟩
  · intro t ht
    have read := terse?_of_ofText? hmodel hdepth ht
    exact ⟨read, ofText_of_terse? read⟩

/-- A model of three commands with options of all kinds. -/
def assorted : Command where
  name := "demo".toList
  options := [.flag ["-q".toList, "--quiet".toList], (CommandOption.argument ["-m".toList]).withCandidates ["7".toList]]
  subcommands := [
    { name := "run".toList
      description := some "null".toList
      options := [((CommandOption.argument ["-o".toList]).withFiles).withCandidates []] },
    { name := "".toList }]

theorem assorted_is_read_tersely :
    (∀ node ∈ assorted.nodes, node.command.Declarable) ∧ (assorted.toTerse true (some assorted.name)).depth ≤ 127 ∧
      ofText .json (assorted.toTerse true (some assorted.name)).text = .ok assorted ∧
      ∀ mode, (assorted.validate mode).events = [] := by
  obtain ⟨image, preimage⟩ := declarable_models_are_read_tersely
  have declarable : ∀ node ∈ assorted.nodes, node.command.Declarable := by decide
  have depth : (assorted.toTerse true (some assorted.name)).depth ≤ 127 := by decide
  obtain ⟨own, texts⟩ := preimage true assorted declarable depth
  obtain ⟨terse, read⟩ := texts _ own
  obtain ⟨-, -, quiet⟩ := image _ _ terse
  exact ⟨declarable, depth, read, quiet⟩

end Command
end ShellCompletion

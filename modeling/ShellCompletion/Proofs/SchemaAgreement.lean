import Mathlib.Data.List.Basic
import ShellCompletion.ModelFile
import ShellCompletion.Proofs.Outcome

/-! The two schemas never disagree. A document that both can read has nothing that they read differently: no
    subcommands, since these are a list in one schema and a mapping in the other, and no options with a value, since
    these are declared under different names, or at the same place of a list by values of different types. -/

namespace ShellCompletion

/-! ### Results that agree -/

/-- Two results are the same where both are there. -/
def Agree {α : Type} (x y : Option α) : Prop := ∀ a b, x = some a → y = some b → a = b

section Agree
variable {α β γ : Type}

/-- Which of two results that agree is preferred does not matter. -/
theorem Agree.or_comm {x y : Option α} (h : Agree x y) : x.or y = y.or x := by
  cases x with
  | none => cases y <;> rfl
  | some a =>
    cases y with
    | none => rfl
    | some b => rw [h a b rfl rfl]

theorem mapM_cons_eq_some {f : α → Option β} {a : α} {l : List α} {bs : List β} :
    (a :: l).mapM f = some bs ↔ ∃ b rest, f a = some b ∧ l.mapM f = some rest ∧ bs = b :: rest := by
  simp only [List.mapM_cons, Option.bind_eq_bind, Option.pure_def, Option.bind_eq_some_iff, Option.some.injEq,
    eq_comm (b := bs)]
  constructor
  · rintro ⟨b, hb, rest, hrest, rfl⟩
    exact ⟨b, rest, hb, hrest, rfl⟩
  · rintro ⟨b, rest, hb, hrest, rfl⟩
    exact ⟨b, hb, rest, hrest, rfl⟩

theorem mapM_eq_some {f : α → Option β} {l : List α} {bs : List β} :
    l.mapM f = some bs ↔ List.Forall₂ (fun a b => f a = some b) l bs := by
  induction l generalizing bs with
  | nil => simp [eq_comm]
  | cons a l ih => simp only [mapM_cons_eq_some, ih, List.forall₂_cons_left_iff, exists_and_left]

theorem exists_of_mem_mapM {f : α → Option β} {l : List α} {bs : List β} (h : l.mapM f = some bs) {b : β}
    (hb : b ∈ bs) : ∃ a ∈ l, f a = some b := by
  induction l generalizing bs with
  | nil =>
    cases h
    cases hb
  | cons a l ih =>
    obtain ⟨b', rest, hb', hrest, rfl⟩ := mapM_cons_eq_some.mp h
    rcases List.mem_cons.mp hb with rfl | hb
    · exact ⟨a, List.mem_cons_self .., hb'⟩
    · obtain ⟨a', ha', hread⟩ := ih hrest hb
      exact ⟨a', List.mem_cons_of_mem _ ha', hread⟩

/-- Two passes over a list, of which the second goes on with what the first found, are one pass. -/
theorem mapM_bind_eq_some {f : α → Option β} {g : β → Option γ} {l : List α} {bs : List β} {cs : List γ}
    (hf : l.mapM f = some bs) (hg : bs.mapM g = some cs) : l.mapM (fun a => (f a).bind g) = some cs := by
  induction l generalizing bs cs with
  | nil =>
    cases hf
    cases hg
    rfl
  | cons a l ih =>
    obtain ⟨b, rest, hb, hrest, rfl⟩ := mapM_cons_eq_some.mp hf
    obtain ⟨c, more, hc, hmore, rfl⟩ := mapM_cons_eq_some.mp hg
    exact mapM_cons_eq_some.mpr ⟨c, more, by rw [hb, Option.bind_some, hc], ih hrest hmore, rfl⟩

theorem exists_of_mapM_bind {f : α → Option β} {g : β → Option γ} {l : List α} {cs : List γ}
    (h : l.mapM (fun a => (f a).bind g) = some cs) : ∃ bs, l.mapM f = some bs ∧ bs.mapM g = some cs := by
  induction l generalizing cs with
  | nil => exact ⟨[], rfl, h⟩
  | cons a l ih =>
    obtain ⟨c, rest, hc, hrest, rfl⟩ := mapM_cons_eq_some.mp h
    obtain ⟨b, hb, hc⟩ := Option.bind_eq_some_iff.mp hc
    obtain ⟨bs, hbs, hcs⟩ := ih hrest
    exact ⟨b :: bs, mapM_cons_eq_some.mpr ⟨b, bs, hb, hbs, rfl⟩, mapM_cons_eq_some.mpr ⟨c, rest, hc, hcs, rfl⟩⟩

/-- Lists read in one pass and in two agree if their members do. -/
theorem Agree.mapM {f : α → Option γ} {g : α → Option β} {h : β → Option γ}
    (hagree : ∀ a, Agree (f a) ((g a).bind h)) (l : List α) : Agree (l.mapM f) ((l.mapM g).bind (·.mapM h)) := by
  have once : Agree (l.mapM f) (l.mapM fun a => (g a).bind h) := by
    induction l with
    | nil =>
      rintro cs cs' ⟨⟩ ⟨⟩
      rfl
    | cons a l ih =>
      intro cs cs' hf hg
      obtain ⟨c, rest, hc, hrest, rfl⟩ := mapM_cons_eq_some.mp hf
      obtain ⟨c', rest', hc', hrest', rfl⟩ := mapM_cons_eq_some.mp hg
      rw [hagree a c c' hc hc', ih rest rest' hrest hrest']
  intro cs cs' hf hg
  obtain ⟨bs, hbs, hcs'⟩ := Option.bind_eq_some_iff.mp hg
  exact once cs cs' hf (mapM_bind_eq_some hbs hcs')

end Agree

/-! ### Fields -/

namespace Source
variable {α : Type}

theorem select?_eq_some {names : List Text} {entries : List (Text × α)} {fields : List (Option α)} :
    select? names entries = some fields ↔
      ((∀ key ∈ entries.map (·.1), key ∈ names) ∧ (entries.map (·.1)).Nodup) ∧
        names.map (entries.lookup ·) = fields := by
  simp [select?, List.all_eq_true]

/-- Entries that are fields of an option in both schemas are its aliases and its description. -/
theorem select?_common {entries : List (Text × α)} {n t c f d n' k v d' : Option α}
    (h : select? Canonical.optionFields entries = some [n, t, c, f, d])
    (h' : select? Terse.optionFields entries = some [n', k, v, d']) :
    n' = n ∧ d' = d ∧ t = none ∧ c = none ∧ f = none ∧ k = none ∧ v = none := by
  obtain ⟨⟨hkeys, -⟩, hfields⟩ := select?_eq_some.mp h
  obtain ⟨⟨hkeys', -⟩, hfields'⟩ := select?_eq_some.mp h'
  have absent : ∀ key, key ∉ Canonical.optionFields ∨ key ∉ Terse.optionFields → entries.lookup key = none := by
    intro key hkey
    rw [List.lookup_eq_none_iff]
    intro entry hentry
    have hmem : entry.1 ∈ entries.map (·.1) := List.mem_map.mpr ⟨entry, hentry, rfl⟩
    rw [bne_iff_ne]
    rintro rfl
    rcases hkey with hkey | hkey
    · exact hkey (hkeys _ hmem)
    · exact hkey (hkeys' _ hmem)
  obtain ⟨rfl, rfl, rfl, rfl, rfl⟩ : _ ∧ _ ∧ _ ∧ _ ∧ _ := by simpa [Canonical.optionFields] using hfields
  obtain ⟨rfl, rfl, rfl, rfl⟩ : _ ∧ _ ∧ _ ∧ _ := by simpa [Terse.optionFields] using hfields'
  exact ⟨rfl, rfl, absent _ (Or.inr (by decide)), absent _ (Or.inr (by decide)), absent _ (Or.inr (by decide)),
    absent _ (Or.inl (by decide)), absent _ (Or.inl (by decide))⟩

theorem optional_eq_some [Source α] {β : Type} {read? : α → Option β} {x : α} {b : β} :
    optional read? (some x) = some (some b) ↔ ∃ y, optional? x = some (some y) ∧ read? y = some b := by
  unfold Source.optional
  rcases hx : optional? x with _ | _ | y <;> simp [hx]

/-- What a form of documents keeps to for the schemas to agree on it. -/
class Coherent (α : Type) [Source α] : Prop where
  optional_eq {x y : α} : optional? x = some (some y) → y = x
  names_agree (x : α) : Agree (list? text? x) ((value? x).bind Terse.namesOf?)
  nothing_in_both {x : α} {items : List α} {entries : List (Value × Value)} :
    items? x = some items → entries? x = some entries → items = [] ∧ entries = []
  common_fields {x : α} {n t c f d n' k v d' : Option α} {b : Bool} {kind : Option Text} :
    record? Canonical.optionFields x = some [n, t, c, f, d] → record? Terse.optionFields x = some [n', k, v, d'] →
      withDefault false bool? t = some b → optional text? k = some kind →
        n' = n ∧ d' = d ∧ t = none ∧ c = none ∧ f = none ∧ k = none ∧ v = none

end Source

/-! ### Readings -/

namespace Canonical
open Source
variable {α : Type} [Source α]

/-- An option stands for its fields, each read as its type or taken as its default. -/
theorem option?_eq_some {x : α} {o : CommandOption} :
    option? x = some o ↔ ∃ n t c f d, record? optionFields x = some [some n, t, c, f, d] ∧
      list? text? n = some o.names ∧ withDefault false bool? t = some o.takesArgument ∧
      optional (list? text?) c = some o.candidates ∧ withDefault false bool? f = some o.fileValued ∧
      optional text? d = some o.description := by
  constructor
  · intro h
    unfold option? at h
    simp only [Option.bind_eq_bind, Option.bind_eq_some_iff] at h
    obtain ⟨fields, hfields, h⟩ := h
    split at h
    · next n t c f d =>
      simp only [Option.bind_eq_some_iff, Option.pure_def, Option.some.injEq] at h
      obtain ⟨n, rfl, _, hnames, _, htakes, _, hcandidates, _, hfiles, _, hdescription, rfl⟩ := h
      exact ⟨n, t, c, f, d, hfields, hnames, htakes, hcandidates, hfiles, hdescription⟩
    · cases h
  · rintro ⟨n, t, c, f, d, hfields, hnames, htakes, hcandidates, hfiles, hdescription⟩
    simp only [option?, hfields, hnames, htakes, hcandidates, hfiles, hdescription, Option.bind_eq_bind,
      Option.bind_some, Option.pure_def]

/-- A command stands for its fields, with its subcommands read one level below. -/
theorem commandWithin?_eq_some {levels : Nat} {x : α} {c : Command} :
    commandWithin? (levels + 1) x = some c ↔ ∃ n d o s, record? commandFields x = some [some n, d, o, s] ∧
      text? n = some c.name ∧ optional text? d = some c.description ∧
      withDefault [] (list? option?) o = some c.options ∧
      withDefault [] (list? (commandWithin? levels)) s = some c.subcommands := by
  constructor
  · intro h
    unfold commandWithin? at h
    simp only [Option.bind_eq_bind, Option.bind_eq_some_iff] at h
    obtain ⟨fields, hfields, h⟩ := h
    split at h
    · next n d o s =>
      simp only [Option.bind_eq_some_iff, Option.pure_def, Option.some.injEq] at h
      obtain ⟨n, rfl, _, hname, _, hdescription, _, hoptions, _, hsubs, rfl⟩ := h
      exact ⟨n, d, o, s, hfields, hname, hdescription, hoptions, hsubs⟩
    · cases h
  · rintro ⟨n, d, o, s, hfields, hname, hdescription, hoptions, hsubs⟩
    obtain ⟨name, description, options, subs⟩ := c
    simp only [commandWithin?, hfields, hname, hdescription, hoptions, hsubs, Option.bind_eq_bind, Option.bind_some,
      Option.pure_def]

end Canonical

namespace Terse
open Source
variable {α : Type} [Source α]

theorem optionEntry?_eq_some {x : α} {e : OptionEntry} :
    optionEntry? x = some e ↔ ∃ n k v d, record? optionFields x = some [some n, k, v, d] ∧
      (value? n).bind namesOf? = some e.names ∧ optional text? k = some e.kind ∧
      optional (list? value?) v = some e.values ∧ optional text? d = some e.description := by
  constructor
  · intro h
    unfold optionEntry? at h
    simp only [Option.bind_eq_bind, Option.bind_eq_some_iff] at h
    obtain ⟨fields, hfields, h⟩ := h
    split at h
    · next n k v d =>
      simp only [Option.bind_eq_some_iff, Option.pure_def, Option.some.injEq] at h
      obtain ⟨n, rfl, value, hvalue, names, hnames, kind, hkind, values, hvalues, description, hdescription, rfl⟩ := h
      exact ⟨n, k, v, d, hfields, Option.bind_eq_some_iff.mpr ⟨value, hvalue, hnames⟩, hkind, hvalues, hdescription⟩
    · cases h
  · rintro ⟨n, k, v, d, hfields, hnames, hkind, hvalues, hdescription⟩
    obtain ⟨value, hvalue, hnames⟩ := Option.bind_eq_some_iff.mp hnames
    simp only [ optionEntry?, hfields, hvalue, hnames, hkind, hvalues, hdescription, Option.bind_eq_bind,
      Option.bind_some, Option.pure_def]

theorem commandEntry?_eq_some {x : α} {e : CommandEntry} :
    commandEntry? x = some e ↔ ∃ n d o s, record? commandFields x = some [n, d, o, s] ∧
      optional text? n = some e.name ∧ optional text? d = some e.description ∧
      withDefault [] (list? optionEntry?) o = some e.options ∧ withDefault [] entries? s = some e.subcommands := by
  constructor
  · intro h
    unfold commandEntry? at h
    simp only [Option.bind_eq_bind, Option.bind_eq_some_iff] at h
    obtain ⟨fields, hfields, h⟩ := h
    split at h
    · next n d o s =>
      simp only [Option.bind_eq_some_iff, Option.pure_def, Option.some.injEq] at h
      obtain ⟨name, hname, description, hdescription, options, hoptions, subs, hsubs, rfl⟩ := h
      exact ⟨n, d, o, s, hfields, hname, hdescription, hoptions, hsubs⟩
    · cases h
  · rintro ⟨n, d, o, s, hfields, hname, hdescription, hoptions, hsubs⟩
    simp only [ commandEntry?, hfields, hname, hdescription, hoptions, hsubs, Option.bind_eq_bind, Option.bind_some,
      Option.pure_def]

/-- A command without subcommands comes from its options. -/
theorem commandWithin_eq_ok {levels : Nat} {name : Text} {e : CommandEntry} {c : Command} (hsubs : e.subcommands = [])
    (h : commandWithin levels name e = .ok c) :
    ∃ options, e.options.mapM (option name) = .ok options ∧
      c = { name, description := e.description, options, subcommands := [] } := by
  unfold commandWithin at h
  obtain ⟨options, hoptions, h⟩ := bind_eq_ok.mp h
  rw [hsubs] at h
  cases h
  exact ⟨options, hoptions, rfl⟩

theorem model_eq_ok {e : CommandEntry} {c : Command} (h : model e = .ok c) :
    ∃ name, e.name = some name ∧ commandWithin levelLimit name e = .ok c := by
  unfold model at h
  split at h
  · cases h
  · next name hname => exact ⟨name, hname, h⟩

end Terse

/-! ### Agreement -/

section Agreement
open Source
variable {α : Type} [Source α] [Coherent α]

/-- An option that both schemas read is a flag without more than aliases and a description. -/
theorem options_agree (command : Text) (x : α) :
    Agree (Canonical.option? x) ((Terse.optionEntry? x).bind fun e => (Terse.option command e).toOption) := by
  intro o o' h h'
  obtain ⟨e, he, ho'⟩ := Option.bind_eq_some_iff.mp h'
  obtain ⟨n, t, c, f, d, hfields, hnames, htakes, hcandidates, hfiles, hdescription⟩ := Canonical.option?_eq_some.mp h
  obtain ⟨n', k, v, d', hfields', hnames', hkind, hvalues, hdescription'⟩ := Terse.optionEntry?_eq_some.mp he
  obtain ⟨hn, rfl, rfl, rfl, rfl, rfl, rfl⟩ := Coherent.common_fields hfields hfields' htakes hkind
  cases hn
  obtain ⟨names, kind, values, description⟩ := e
  obtain ⟨names', takes, candidates, files, description'⟩ := o
  cases htakes
  cases hcandidates
  cases hfiles
  cases hkind
  cases hvalues
  obtain rfl : names' = names := Coherent.names_agree n _ _ hnames hnames'
  obtain rfl : description' = description := Option.some.inj (hdescription.symm.trans hdescription')
  cases ho'
  rfl

/-- Fields that both schemas read as options are the same options. -/
theorem optionFields_agree (command : Text) (x : Option α) :
    Agree (withDefault [] (list? Canonical.option?) x)
      ((withDefault [] (list? Terse.optionEntry?) x).bind fun es => (es.mapM (Terse.option command)).toOption) := by
  cases x with
  | none =>
    rintro os os' ⟨⟩ ⟨⟩
    rfl
  | some x =>
    intro os os' h h'
    obtain ⟨items, hitems, hos⟩ := Option.bind_eq_some_iff.mp h
    obtain ⟨entries, hentries, hos'⟩ := Option.bind_eq_some_iff.mp h'
    obtain ⟨items', hitems', hentries⟩ := Option.bind_eq_some_iff.mp hentries
    obtain rfl : items = items' := Option.some.inj (hitems.symm.trans hitems')
    rw [toOption_mapM] at hos'
    exact Agree.mapM (options_agree command) items os os' hos (Option.bind_eq_some_iff.mpr ⟨entries, hentries, hos'⟩)

theorem nameFields_agree {x : α} {name name' : Text} (h : text? x = some name)
    (h' : optional text? (some x) = some (some name')) : name = name' := by
  obtain ⟨y, hy, hname'⟩ := optional_eq_some.mp h'
  obtain rfl := Coherent.optional_eq hy
  exact Option.some.inj (h.symm.trans hname')

/-- What both schemas read as subcommands is nothing. -/
theorem subcommandFields_empty {β : Type} {read? : α → Option β} {x : Option α} {subs : List β}
    {entries : List (Value × Value)} (h : withDefault [] (list? read?) x = some subs)
    (h' : withDefault [] entries? x = some entries) : subs = [] ∧ entries = [] := by
  cases x with
  | none =>
    cases h
    cases h'
    exact ⟨rfl, rfl⟩
  | some x =>
    obtain ⟨items, hitems, hsubs⟩ := Option.bind_eq_some_iff.mp h
    obtain ⟨rfl, rfl⟩ := Coherent.nothing_in_both hitems h'
    cases hsubs
    exact ⟨rfl, rfl⟩

/-- A model that both schemas read is the same model. -/
theorem models_agree (x : α) :
    Agree (Canonical.command? x) ((Terse.commandEntry? x).bind fun e => (Terse.model e).toOption) := by
  intro c c' h h'
  obtain ⟨e, he, hc'⟩ := Option.bind_eq_some_iff.mp h'
  obtain ⟨n, d, o, s, hfields, hname, hdescription, hoptions, hsubs⟩ := Canonical.commandWithin?_eq_some.mp h
  obtain ⟨n', d', o', s', hfields', hname', hdescription', hoptions', hsubs'⟩ := Terse.commandEntry?_eq_some.mp he
  cases hfields.symm.trans hfields'
  obtain ⟨hnil, hnil'⟩ := subcommandFields_empty hsubs hsubs'
  obtain ⟨name, hentry, hc'⟩ := Terse.model_eq_ok (toOption_eq_some.mp hc')
  obtain ⟨options, hmeaning, rfl⟩ := Terse.commandWithin_eq_ok hnil' hc'
  rw [hentry] at hname'
  have hread : ((withDefault [] (list? Terse.optionEntry?) o).bind fun es =>
      (es.mapM (Terse.option name)).toOption) = some options := by
    rw [hoptions', Option.bind_some, hmeaning]
    rfl
  obtain ⟨name', description', options', subs'⟩ := c
  obtain rfl : name' = name := nameFields_agree hname hname'
  obtain rfl : description' = e.description := Option.some.inj (hdescription.symm.trans hdescription')
  obtain rfl : options' = options := optionFields_agree name' o _ _ hoptions hread
  obtain rfl : subs' = [] := hnil
  rfl

end Agreement

/-! ### Forms of documents -/

namespace Json

theorem ofJsonItems?_eq (items : List Json) : Value.ofJsonItems? items = items.mapM Value.ofJson? := by
  induction items with
  | nil => rfl
  | cons j items ih =>
    rw [List.mapM_cons, ← ih]
    rfl

theorem texts_agree (j : Json) : Agree (text? j) ((Value.ofJson? j).bind Terse.stringOf?) := by
  intro t t' h h'
  cases j with
  | string s =>
    cases h
    cases h'
    rfl
  | _ => cases h

theorem second_of_record? {names : List Text} {first second : Json} {items : List Json} {fields : List (Option Json)}
    (h : record? names (array (first :: second :: items)) = some fields) : fields[1]? = some (some second) := by
  obtain ⟨-, h⟩ := Option.ite_none_right_eq_some.mp h
  rw [← Option.some.inj h]
  rfl

/-- In a list of fields the second one would have to be of two types. -/
theorem common_items {items : List Json} {n t c f d n' k v d' : Option Json} {b : Bool} {kind : Option Text}
    (h : record? Canonical.optionFields (array items) = some [n, t, c, f, d])
    (h' : record? Terse.optionFields (array items) = some [n', k, v, d'])
    (ht : Source.withDefault false bool? t = some b) (hk : Source.optional text? k = some kind) :
    n' = n ∧ d' = d ∧ t = none ∧ c = none ∧ f = none ∧ k = none ∧ v = none := by
  match items with
  | [] =>
    cases h
    cases h'
    exact ⟨rfl, rfl, rfl, rfl, rfl, rfl, rfl⟩
  | [_] =>
    cases h
    cases h'
    exact ⟨rfl, rfl, rfl, rfl, rfl, rfl, rfl⟩
  | _ :: second :: items =>
    obtain rfl : t = some second := Option.some.inj (second_of_record? h)
    obtain rfl : k = some second := Option.some.inj (second_of_record? h')
    cases second with
    | bool _ => cases hk
    | _ => cases ht

instance : Source.Coherent Json where
  optional_eq := by
    intro j k h
    cases j <;> cases h <;> rfl
  names_agree j := by
    intro names names' h h'
    cases j with
    | array items =>
      obtain ⟨v, hv, hnames'⟩ := Option.bind_eq_some_iff.mp h'
      obtain ⟨vs, hvs, rfl⟩ := Option.map_eq_some_iff.mp hv
      rw [ofJsonItems?_eq] at hvs
      exact Agree.mapM texts_agree items names names' h (Option.bind_eq_some_iff.mpr ⟨vs, hvs, hnames'⟩)
    | _ => cases h
  nothing_in_both := by
    intro j items entries h h'
    cases j with
    | array => cases h'
    | _ => cases h
  common_fields := by
    intro j n t c f d n' k v d' b kind h h' ht hk
    cases j with
    | array items => exact common_items h h' ht hk
    | object fields => exact Source.select?_common h h'
    | _ => cases h

end Json

namespace Yaml

theorem values?_eq (items : List Node) : values? items = items.mapM value? := by
  induction items with
  | nil => rfl
  | cons n items ih =>
    rw [List.mapM_cons, ← ih]
    rfl

/-- What a scalar can denote, tags apart: its text, or a value that is no text and has no parts. -/
inductive IsScalar (text : Text) : Value → Prop where
  | null : IsScalar text .null
  | bool (b : Bool) : IsScalar text (.bool b)
  | number (x : Number) : IsScalar text (.number x)
  | string : IsScalar text (.string text)

theorem isScalar_of_resolve? {text : Text} {v : Value} (h : resolve? text = some v) : IsScalar text v := by
  unfold resolve? at h
  split at h
  · cases h
    exact .null
  split at h
  · cases h
    exact .bool _
  split at h
  · split at h
    · cases h
      exact .number _
    · cases h
  split at h
  · cases h
    exact .number _
  · cases h
    exact .string

theorem isScalar_of_taggedScalar? {tag text : Text} {v : Value} (h : taggedScalar? tag text = some v) :
    IsScalar text v := by
  unfold taggedScalar? at h
  split at h
  · obtain ⟨b, -, rfl⟩ := Option.map_eq_some_iff.mp h
    exact .bool b
  split at h
  · split at h
    · cases h
      exact .number _
    · cases h
  split at h
  · obtain ⟨x, -, rfl⟩ := Option.map_eq_some_iff.mp h
    exact .number _
  split at h
  · obtain ⟨-, h⟩ := Option.ite_none_right_eq_some.mp h
    cases h
    exact .null
  · cases h
    exact .string

theorem IsScalar.untagged_eq {text : Text} {v : Value} (h : IsScalar text v) : v.untagged = v := by
  cases h <;> rfl

theorem untagged_withOwnTag (tag : Option Text) (v : Value) : (withOwnTag tag v).untagged = v.untagged := by
  unfold withOwnTag
  split <;> rfl

theorem isScalar_of_scalarValue? {tag : Option Text} {style : ScalarStyle} {text : Text} {v : Value}
    (h : scalarValue? tag style text = some v) : IsScalar text v.untagged := by
  unfold scalarValue? at h
  split at h
  · have scalar := isScalar_of_taggedScalar? h
    rwa [scalar.untagged_eq]
  · obtain ⟨v, hv, rfl⟩ := Option.map_eq_some_iff.mp h
    have scalar : IsScalar text v := by
      unfold untaggedScalar? at hv
      split at hv
      · exact isScalar_of_resolve? hv
      · cases hv
        exact .string
    rwa [untagged_withOwnTag, scalar.untagged_eq]

/-- What a scalar denotes is its text or no aliases. -/
theorem eq_string_or_namesOf?_eq_none {tag : Option Text} {style : ScalarStyle} {text : Text} {v : Value}
    (h : scalarValue? tag style text = some v) : v = .string text ∨ Terse.namesOf? v = none := by
  have scalar := isScalar_of_scalarValue? h
  cases v with
  | string t =>
    cases scalar
    exact Or.inl rfl
  | sequence items => cases scalar
  | _ => exact Or.inr rfl

namespace Node

theorem texts_agree (n : Node) : Agree n.text? ((value? n).bind Terse.stringOf?) := by
  intro t t' h h'
  cases n with
  | scalar tag style text =>
    obtain ⟨v, hv, hstring⟩ := Option.bind_eq_some_iff.mp h'
    cases h
    rcases eq_string_or_namesOf?_eq_none hv with rfl | hnone
    · exact Option.some.inj hstring
    · cases v with
      | string _ => cases hnone
      | _ => cases hstring
  | _ => cases h

theorem eq_nil_of_isNothing {tag : Option Text} {style : ScalarStyle} {text : Text}
    (h : (scalar tag style text).isNothing = true) : text = [] := by
  unfold isNothing at h
  split at h
  · next heq =>
    cases heq
    rfl
  · cases h

theorem optional?_eq {n m : Node} (h : n.optional? = some (some m)) : m = n := by
  unfold optional? at h
  split at h
  · split at h
    · cases h
    · exact (Option.some.inj (Option.some.inj h)).symm
  · split at h
    · split at h <;> cases h
    · exact (Option.some.inj (Option.some.inj h)).symm
  · exact (Option.some.inj (Option.some.inj h)).symm

/-- Where nothing is written, there are no items and no entries. -/
theorem nothing_in_both {n : Node} {items : List Node} {entries : List (Value × Value)} (h : n.items? = some items)
    (h' : n.entries? = some entries) : items = [] ∧ entries = [] := by
  cases n with
  | scalar tag style text =>
    obtain ⟨-, h⟩ := Option.ite_none_right_eq_some.mp h
    obtain ⟨-, h'⟩ := Option.ite_none_right_eq_some.mp h'
    exact ⟨(Option.some.inj h).symm, (Option.some.inj h').symm⟩
  | sequence => cases h'
  | mapping => cases h

/-- What stands for aliases is a list of scalars, or nothing with a tag that makes it the empty text. -/
theorem names_agree (n : Node) :
    Agree (n.items?.bind (·.mapM text?)) ((value? n).bind Terse.namesOf?) := by
  intro names names' h h'
  obtain ⟨items, hitems, hnames⟩ := Option.bind_eq_some_iff.mp h
  obtain ⟨v, hv, hnames'⟩ := Option.bind_eq_some_iff.mp h'
  cases n with
  | scalar tag style text =>
    obtain ⟨hnothing, hnil⟩ := Option.ite_none_right_eq_some.mp hitems
    obtain rfl := eq_nil_of_isNothing hnothing
    cases hnil
    cases hnames
    rcases eq_string_or_namesOf?_eq_none hv with rfl | hnone
    · exact Option.some.inj hnames'
    · rw [hnone] at hnames'
      cases hnames'
  | sequence tag items' =>
    cases hitems
    obtain ⟨vs, hvs, rfl⟩ := Option.map_eq_some_iff.mp hv
    rw [values?_eq] at hvs
    unfold withOwnTag at hnames'
    split at hnames'
    · cases hnames'
    · exact Agree.mapM texts_agree items names names' hnames (Option.bind_eq_some_iff.mpr ⟨vs, hvs, hnames'⟩)
  | mapping => cases hitems

theorem common_fields {x : Node} {n t c f d n' k v d' : Option Node}
    (h : x.record? Canonical.optionFields = some [n, t, c, f, d])
    (h' : record? Terse.optionFields x = some [n', k, v, d']) :
    n' = n ∧ d' = d ∧ t = none ∧ c = none ∧ f = none ∧ k = none ∧ v = none := by
  cases x with
  | scalar tag style text =>
    obtain ⟨-, h⟩ := Option.ite_none_right_eq_some.mp h
    obtain ⟨-, h'⟩ := Option.ite_none_right_eq_some.mp h'
    exact Source.select?_common h h'
  | sequence => cases h
  | mapping tag entries =>
    obtain ⟨fields, hfields, h⟩ := Option.bind_eq_some_iff.mp h
    obtain ⟨fields', hfields', h'⟩ := Option.bind_eq_some_iff.mp h'
    obtain rfl : fields = fields' := Option.some.inj (hfields.symm.trans hfields')
    exact Source.select?_common h h'

instance : Source.Coherent Node where
  optional_eq := optional?_eq
  names_agree := names_agree
  nothing_in_both := nothing_in_both
  common_fields h h' _ _ := common_fields h h'

end Node
end Yaml

/-! ### Texts -/

namespace Format

/-- What a text describes in the canonical schema. -/
def canonical? (format : Format) (t : Text) : Option Command :=
  match format with
  | yaml => (Yaml.Node.ofText? t).bind Canonical.command?
  | json => (Json.read? t).bind Canonical.command?

/-- What a text describes in the terse schema. -/
def terse? (format : Format) (t : Text) : Option Command :=
  match format with
  | yaml => ((Yaml.Node.ofText? t).bind Terse.commandEntry?).bind fun e => (Terse.model e).toOption
  | json => ((Json.read? t).bind Terse.commandEntry?).bind fun e => (Terse.model e).toOption

end Format

section
variable {α : Type} [Source α]

theorem toOption_ofSource (malformed : Failure) (document : Option α) :
    (Command.ofSource malformed document).toOption =
      (document.bind Canonical.command?).or
        ((document.bind Terse.commandEntry?).bind fun e => (Terse.model e).toOption) := by
  unfold Command.ofSource
  cases document.bind Canonical.command? with
  | some model => rfl
  | none => cases document.bind Terse.commandEntry? <;> rfl

theorem documents_agree [Source.Coherent α] (document : Option α) :
    Agree (document.bind Canonical.command?)
      ((document.bind Terse.commandEntry?).bind fun e => (Terse.model e).toOption) := by
  cases document with
  | none => nofun
  | some x => exact models_agree x

end

namespace Command

/-- The canonical schema is tried first. -/
theorem toOption_ofText (format : Format) (t : Text) :
    (ofText format t).toOption = (format.canonical? t).or (format.terse? t) := by
  cases format <;> exact toOption_ofSource _ _

/-- A text that describes a model in both schemas describes the same one; so it would be no different model if the
    terse schema were tried first. -/
theorem schemas_never_disagree (format : Format) (t : Text) :
    (∀ model model', format.canonical? t = some model → format.terse? t = some model' → model = model') ∧
      (ofText format t).toOption = (format.terse? t).or (format.canonical? t) := by
  have agree : Agree (format.canonical? t) (format.terse? t) := by
    cases format <;> exact documents_agree _
  exact ⟨agree, (toOption_ofText format t).trans agree.or_comm⟩

/-- A model of one flag in lists of fields, which both schemas read. -/
def listed : Text := "[\"demo\",null,[[[\"-h\"]]]]".toList

/-- The same model in YAML; the subcommands are written as nothing. -/
def written : Text := "name: demo\noptions:\n- names: [-h]\nsubcommands:\n".toList

theorem schemas_never_disagree_listed :
    (∃ model, Format.json.canonical? listed = some model ∧ Format.json.terse? listed = some model) ∧
      ∃ model, Format.yaml.canonical? written = some model ∧ Format.yaml.terse? written = some model := by
  have both : ∀ (format : Format) (t : Text), (format.canonical? t).isSome = true → (format.terse? t).isSome = true →
      ∃ model, format.canonical? t = some model ∧ format.terse? t = some model := fun format t h h' => by
    obtain ⟨model, hmodel⟩ := Option.isSome_iff_exists.mp h
    obtain ⟨model', hmodel'⟩ := Option.isSome_iff_exists.mp h'
    obtain rfl := (schemas_never_disagree format t).1 model model' hmodel hmodel'
    exact ⟨model, hmodel, hmodel'⟩
  exact ⟨both .json listed (by decide +kernel) (by decide +kernel),
    both .yaml written (by decide +kernel) (by decide +kernel)⟩

end Command
end ShellCompletion

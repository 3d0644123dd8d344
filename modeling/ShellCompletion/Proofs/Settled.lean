import ShellCompletion.Proofs.CommandTree
import ShellCompletion.Proofs.Depth

/-! Readings that impose a type and readings of untyped values. Where a type is expected a node is read as it is
    written, but an untyped value has been resolved before; so a reading has the same result on both exactly if the
    node is settled, which is to say that it denotes by itself what the type makes of it. -/

namespace ShellCompletion.Yaml.Node

open Source

variable {β : Type} {x : Node} {v : Value}

/-! ### Scalars -/

/-- Does a node denote a text by itself, tags apart? -/
def denotesText (x : Node) : Bool := ((value? x).bind Value.text?).isSome

/-- Does a node denote null by itself, tags apart? -/
def denotesNothing (x : Node) : Bool :=
  match (value? x).map Value.untagged with
  | some .null => true
  | _ => false

/-- A reading has the same result on untyped values exactly if the node is settled. -/
def Faithful (read : Node → Option β) (read' : Value → Option β) (settled : Node → Bool) : Prop :=
  ∀ x b, read x = some b → ((value? x).bind read' = some b ↔ settled x = true)

theorem eq_of_text?_value? {t t' : Text} (h : x.text? = some t) (h' : (value? x).bind Value.text? = some t') : t' = t := by
  cases x with
  | scalar tag style text =>
    cases h
    obtain ⟨v, hv, hread⟩ := Option.bind_eq_some_iff.mp h'
    have scalar := isScalar_of_scalarValue? hv
    unfold Value.text? at hread
    generalize v.untagged = w at scalar hread
    cases scalar with
    | string => exact (Option.some.inj hread).symm
    | _ => cases hread
  | _ => cases h

theorem faithful_text : Faithful text? Value.text? denotesText := by
  intro x t h
  constructor
  · intro hread
    rw [denotesText, hread]
    rfl
  · intro settled
    obtain ⟨t', hread⟩ := Option.isSome_iff_exists.mp settled
    rw [hread, eq_of_text?_value? h hread]

theorem faithful_value : Faithful value? some fun _ => true := by
  intro x v h
  simp [h]

theorem denotesNothing_iff : x.denotesNothing = true ↔ ∃ v, value? x = some v ∧ v.untagged = .null := by
  unfold denotesNothing
  constructor
  · intro h
    split at h
    · next hnull => exact Option.map_eq_some_iff.mp hnull
    · cases h
  · rintro ⟨v, hv, hnull⟩
    rw [hv, Option.map_some, hnull]

/-! ### Collections -/

/-- Is a list settled? Instead of a list nothing may be written. -/
def settledItems (settled : Node → Bool) : Node → Bool
  | sequence _ items => items.all settled
  | x => x.denotesNothing

/-- Are entries settled that are read without a type? -/
def settledEntries : Node → Bool
  | mapping .. => true
  | x => x.denotesNothing

theorem items?_withOwnTag (tag : Option Text) (vs : List Value) :
    Value.items? (withOwnTag tag (.sequence vs)) = some vs := by
  rw [Value.items?, untagged_withOwnTag]
  rfl

theorem entries?_withOwnTag (tag : Option Text) (es : List (Value × Value)) :
    Value.entries? (withOwnTag tag (.mapping es)) = some es := by
  rw [Value.entries?, untagged_withOwnTag]
  rfl

/-- For a scalar an untyped list, or untyped entries, are those of null. -/
theorem nothing_of_scalar {tag : Option Text} {style : ScalarStyle} {text : Text}
    (hv : value? (scalar tag style text) = some v) :
    (Value.items? v = some [] ∧ v.untagged = .null ∨ Value.items? v = none ∧ v.untagged ≠ .null) ∧
      (Value.entries? v = some [] ∧ v.untagged = .null ∨ Value.entries? v = none ∧ v.untagged ≠ .null) := by
  have scalar := isScalar_of_scalarValue? hv
  unfold Value.items? Value.entries?
  generalize v.untagged = w at scalar
  cases scalar with
  | null => exact ⟨Or.inl ⟨rfl, rfl⟩, Or.inl ⟨rfl, rfl⟩⟩
  | _ => exact ⟨Or.inr ⟨rfl, nofun⟩, Or.inr ⟨rfl, nofun⟩⟩

theorem Faithful.forall₂ {read : Node → Option β} {read' : Value → Option β} {settled : Node → Bool}
    (hf : Faithful read read' settled) {items : List Node} {bs : List β} (h : items.mapM read = some bs) :
    (items.mapM fun x => (value? x).bind read') = some bs ↔ items.all settled = true := by
  induction items generalizing bs with
  | nil =>
    cases h
    simp
  | cons x items ih =>
    obtain ⟨b, rest, hb, hrest, rfl⟩ := mapM_cons_eq_some.mp h
    rw [List.all_cons, Bool.and_eq_true, ← hf x b hb, ← ih hrest, mapM_cons_eq_some]
    constructor
    · rintro ⟨b', rest', hb', hrest', heq⟩
      obtain ⟨rfl, rfl⟩ := List.cons.inj heq
      exact ⟨hb', hrest'⟩
    · rintro ⟨hb', hrest'⟩
      exact ⟨b, rest, hb', hrest', rfl⟩

theorem Faithful.items {read : Node → Option β} {read' : Value → Option β} {settled : Node → Bool}
    (hf : Faithful read read' settled) : Faithful (list? read) (list? read') (settledItems settled) := by
  intro x bs h
  obtain ⟨items, hitems, hbs⟩ := Option.bind_eq_some_iff.mp h
  cases x with
  | sequence tag items' =>
    cases hitems
    rw [settledItems, ← hf.forall₂ hbs]
    constructor
    · intro hread
      obtain ⟨v, hv, hread⟩ := Option.bind_eq_some_iff.mp hread
      obtain ⟨vs, hvs, rfl⟩ := Option.map_eq_some_iff.mp hv
      obtain ⟨vs', hvs', hread⟩ := Option.bind_eq_some_iff.mp hread
      obtain rfl := Option.some.inj ((items?_withOwnTag tag vs).symm.trans hvs')
      exact mapM_bind_eq_some (values?_eq items ▸ hvs) hread
    · intro hread
      obtain ⟨vs, hvs, hread⟩ := exists_of_mapM_bind hread
      rw [← values?_eq] at hvs
      rw [value?, hvs, Option.map_some, Option.bind_some, list?, Option.bind_eq_bind]
      exact Option.bind_eq_some_iff.mpr ⟨vs, items?_withOwnTag tag vs, hread⟩
  | scalar tag style text =>
    obtain ⟨-, hnil⟩ := Option.ite_none_right_eq_some.mp hitems
    cases hnil
    cases hbs
    show _ ↔ (scalar tag style text).denotesNothing = true
    rw [denotesNothing_iff]
    constructor
    · intro hread
      obtain ⟨v, hv, hread⟩ := Option.bind_eq_some_iff.mp hread
      obtain ⟨vs, hvs, -⟩ := Option.bind_eq_some_iff.mp hread
      obtain ⟨⟨-, hnull⟩ | ⟨hnone, -⟩, -⟩ := nothing_of_scalar hv
      · exact ⟨v, hv, hnull⟩
      · cases hvs.symm.trans hnone
    · rintro ⟨v, hv, hnull⟩
      obtain ⟨⟨hnil, -⟩ | ⟨-, hne⟩, -⟩ := nothing_of_scalar hv
      · exact Option.bind_eq_some_iff.mpr ⟨v, hv, Option.bind_eq_some_iff.mpr ⟨[], hnil, rfl⟩⟩
      · exact absurd hnull hne
  | mapping => cases hitems

theorem faithful_entries : Faithful entries? Value.entries? settledEntries := by
  intro x es h
  cases x with
  | mapping tag entries =>
    unfold entries? at h
    dsimp only at h
    split at h
    · next hentries =>
      cases h
      simp [settledEntries, value?, hentries, entries?_withOwnTag]
    · cases h
  | scalar tag style text =>
    obtain ⟨-, hnil⟩ := Option.ite_none_right_eq_some.mp h
    cases hnil
    show _ ↔ (scalar tag style text).denotesNothing = true
    rw [denotesNothing_iff]
    constructor
    · intro hread
      obtain ⟨v, hv, hread⟩ := Option.bind_eq_some_iff.mp hread
      obtain ⟨-, ⟨-, hnull⟩ | ⟨hnone, -⟩⟩ := nothing_of_scalar hv
      · exact ⟨v, hv, hnull⟩
      · cases hread.symm.trans hnone
    · rintro ⟨v, hv, hnull⟩
      obtain ⟨-, ⟨hnil, -⟩ | ⟨-, hne⟩⟩ := nothing_of_scalar hv
      · exact Option.bind_eq_some_iff.mpr ⟨v, hv, hnil⟩
      · exact absurd hnull hne
  | sequence => cases h

/-! ### Optional fields -/

/-- Does a node denote null by itself, without a tag? -/
def denotesNull (x : Node) : Bool :=
  match value? x with
  | some .null => true
  | _ => false

/-- Is a value settled that may be written as null? It must be null to both readings or to none. -/
def settledOptional (settled : Node → Bool) (x : Node) : Bool :=
  match x.optional? with
  | some none => true
  | _ => !x.denotesNull && settled x

theorem denotesNull_eq_false (hv : value? x = some v) (hne : v ≠ .null) : x.denotesNull = false := by
  unfold denotesNull
  rw [hv]
  split
  · next heq => exact absurd (Option.some.inj heq) hne
  · rfl

theorem value?_of_optional? (h : x.optional? = some none) : value? x = some .null := by
  unfold optional? at h
  split at h
  · next text =>
    split at h
    · next hnull =>
      have resolved : resolve? text = some .null := if_pos hnull
      simp [value?, scalarValue?, untaggedScalar?, resolved, withOwnTag, ownTag?]
    · cases h
  · next tag text =>
    split at h
    · next htag =>
      subst htag
      split at h
      · next hnull =>
        have tagged : taggedScalar? (standardTag "null".toList) text = some .null := if_pos hnull
        exact tagged
      · cases h
    · cases h
  · cases h

theorem ne_null_of_withOwnTag {tag : Option Text} (hne : v ≠ .null) : withOwnTag tag v ≠ .null := by
  unfold withOwnTag
  split
  · nofun
  · exact hne

theorem isNull_of_taggedScalar? {tag text : Text} (h : taggedScalar? tag text = some .null) :
    tag = standardTag "null".toList ∧ isNull text = true := by
  unfold taggedScalar? at h
  split at h
  · obtain ⟨_, -, ⟨⟩⟩ := Option.map_eq_some_iff.mp h
  split at h
  · split at h <;> cases h
  split at h
  · obtain ⟨_, -, ⟨⟩⟩ := Option.map_eq_some_iff.mp h
  split at h
  · next htag => exact ⟨htag, (Option.ite_none_right_eq_some.mp h).1⟩
  · cases h

theorem isNull_of_resolve? {text : Text} (h : resolve? text = some .null) : (text.isEmpty || isNull text) = true := by
  unfold resolve? at h
  split at h
  · assumption
  split at h
  · cases h
  split at h
  · split at h <;> cases h
  split at h <;> cases h

/-- What denotes null by itself is null to every reading, unless it is a null in quotes that is tagged as null. -/
theorem optional?_of_value? (h : value? x = some .null) :
    x.optional? = some none ∨ ∃ tag style text, x = scalar tag style text ∧ style ≠ .plain ∧ isNull text = true := by
  cases x with
  | scalar tag style text =>
    unfold value? scalarValue? at h
    split at h
    · obtain ⟨rfl, hnull⟩ := isNull_of_taggedScalar? h
      by_cases hstyle : style = .plain
      · subst hstyle
        left
        simp [optional?, hnull]
      · exact Or.inr ⟨_, style, text, rfl, hstyle, hnull⟩
    · next tag _ _ hmatch =>
      obtain ⟨w, hw, htagged⟩ := Option.map_eq_some_iff.mp h
      cases tag with
      | none =>
        obtain rfl : w = .null := htagged
        obtain ⟨rfl, hresolve⟩ : style = .plain ∧ resolve? text = some .null := by
          unfold untaggedScalar? at hw
          split at hw
          · next hstyle => exact ⟨hstyle, hw⟩
          · cases hw
        exact Or.inl (if_pos (isNull_of_resolve? hresolve))
      | some t =>
        cases hown : ownTag? (some t) with
        | none => exact absurd hown (hmatch t rfl)
        | some own =>
          rw [withOwnTag, hown] at htagged
          cases htagged
  | sequence tag items =>
    obtain ⟨vs, -, hnull⟩ := Option.map_eq_some_iff.mp h
    exact absurd hnull (ne_null_of_withOwnTag nofun)
  | mapping tag entries =>
    obtain ⟨w, hw, hnull⟩ := Option.map_eq_some_iff.mp h
    obtain ⟨pairs, -, hw⟩ := Option.bind_eq_some_iff.mp hw
    obtain rfl := mapping?_eq_some hw
    exact absurd hnull (ne_null_of_withOwnTag nofun)

theorem optional_value_of_ne {read : Value → Option β} (h : v ≠ .null) :
    Source.optional read (some v) = (read v).map some := by
  cases v with
  | null => contradiction
  | _ => rfl

/-- What may be null is null, or it is read as it stands. -/
theorem optional_eq_some {read : Node → Option β} {b : Option β} (h : Source.optional read (some x) = some b) :
    x.optional? = some none ∧ b = none ∨ ∃ c, x.optional? = some (some x) ∧ read x = some c ∧ b = some c := by
  unfold Source.optional at h
  cases hx : x.optional? with
  | none =>
    simp only [Source.optional?, hx] at h
    cases h
  | some inner =>
    simp only [Source.optional?, hx] at h
    cases inner with
    | none =>
      cases h
      exact Or.inl ⟨rfl, rfl⟩
    | some y =>
      obtain rfl := optional?_eq hx
      obtain ⟨c, hc, rfl⟩ := Option.map_eq_some_iff.mp h
      exact Or.inr ⟨c, rfl, hc, rfl⟩

theorem Faithful.optional {read : Node → Option β} {read' : Value → Option β} {settled : Node → Bool}
    (hf : Faithful read read' settled) :
    Faithful (fun x => optional read (some x)) (fun v => optional read' (some v)) (settledOptional settled) := by
  intro x ob h
  unfold settledOptional
  obtain ⟨hx, rfl⟩ | ⟨b, hx, hb, rfl⟩ := optional_eq_some h
  · rw [value?_of_optional? hx, hx]
    exact iff_of_true rfl rfl
  · rw [hx]
    show _ ↔ (!x.denotesNull && settled x) = true
    have same := hf x b hb
    cases hv : value? x with
    | none =>
      rw [hv] at same
      have unsettled : settled x = false := Bool.eq_false_iff.mpr fun h => nomatch same.mpr h
      rw [unsettled, Bool.and_false]
      exact iff_of_false nofun Bool.false_ne_true
    | some v =>
      rw [hv, Option.bind_some] at same
      rw [Option.bind_some]
      by_cases hnull : v = .null
      · subst hnull
        -- such a null stands in quotes, so that it is none where a type is expected
        have null : x.denotesNull = true := by rw [denotesNull, hv]
        rw [null]
        exact iff_of_false nofun Bool.false_ne_true
      · rw [denotesNull_eq_false hv hnull, Bool.not_false, Bool.true_and, ← same, optional_value_of_ne hnull]
        simp

/-! ### Records -/

/-- All keys denote texts, whether or not a text is expected. -/
def settledKeys (entries : List (Node × Node)) : Bool := entries.all fun e => e.1.denotesText

/-- A node that may be absent denotes a value that may be absent. -/
def Denotes : Option Node → Option Value → Prop := Option.Rel fun x v => value? x = some v

/-- An entry under the text of its key. -/
def named? {α : Type} (text? : α → Option Text) (e : α × α) : Option (Text × α) :=
  (text? e.1).bind fun name => some (name, e.2)

theorem record?_mapping (names : List Text) (tag : Option Text) (entries : List (Node × Node)) :
    (mapping tag entries).record? names = (entries.mapM (named? text?)).bind (select? names) := rfl

theorem record?_value (names : List Text) (v : Value) :
    v.record? names = v.entries?.bind fun es => (es.mapM (named? Value.text?)).bind (select? names) := rfl

variable {entries : List (Node × Node)} {named : List (Text × Node)} {named' : List (Text × Value)}

/-- Fields denote values under the same names. -/
def FieldsDenote : List (Text × Node) → List (Text × Value) → Prop :=
  List.Forall₂ fun f f' => f'.1 = f.1 ∧ value? f.2 = some f'.2

theorem mapM_named_iff (h : entries.mapM (named? text?) = some named) :
    (∃ pairs, pairs? entries = some pairs ∧ pairs.mapM (named? Value.text?) = some named') ↔
      settledKeys entries = true ∧ FieldsDenote named named' := by
  induction entries generalizing named named' with
  | nil =>
    cases h
    constructor
    · rintro ⟨_, ⟨⟩, ⟨⟩⟩
      exact ⟨rfl, .nil⟩
    · rintro ⟨-, ⟨⟩⟩
      exact ⟨[], rfl, rfl⟩
  | cons e entries ih =>
    obtain ⟨k, x⟩ := e
    obtain ⟨f, rest, hf, hrest, rfl⟩ := mapM_cons_eq_some.mp h
    obtain ⟨name, hname, ⟨⟩⟩ := Option.bind_eq_some_iff.mp hf
    have keys : settledKeys ((k, x) :: entries) = (k.denotesText && settledKeys entries) := rfl
    rw [keys, Bool.and_eq_true, ← faithful_text k name hname]
    constructor
    · rintro ⟨pairs, hpairs, hnamed⟩
      obtain ⟨key, hkey, hpairs⟩ := Option.bind_eq_some_iff.mp hpairs
      obtain ⟨v, hv, hpairs⟩ := Option.bind_eq_some_iff.mp hpairs
      obtain ⟨pairs', hpairs', ⟨⟩⟩ := Option.bind_eq_some_iff.mp hpairs
      obtain ⟨f', rest', hf', hrest', rfl⟩ := mapM_cons_eq_some.mp hnamed
      obtain ⟨name', hname', ⟨⟩⟩ := Option.bind_eq_some_iff.mp hf'
      have read : (value? k).bind Value.text? = some name' := Option.bind_eq_some_iff.mpr ⟨key, hkey, hname'⟩
      obtain rfl := eq_of_text?_value? hname read
      obtain ⟨hkeys, hfields⟩ := (ih hrest).mp ⟨pairs', hpairs', hrest'⟩
      exact ⟨⟨read, hkeys⟩, .cons ⟨rfl, hv⟩ hfields⟩
    · rintro ⟨⟨read, hkeys⟩, hfields⟩
      obtain ⟨key, hkey, hread⟩ := Option.bind_eq_some_iff.mp read
      obtain ⟨⟨_, v⟩, rest', ⟨rfl, hv⟩, hfields', rfl⟩ := List.forall₂_cons_left_iff.mp hfields
      obtain ⟨pairs, hpairs, hnamed⟩ := (ih hrest).mpr ⟨hkeys, hfields'⟩
      refine ⟨(key, v) :: pairs, ?_, mapM_cons_eq_some.mpr ⟨_, rest', ?_, hnamed, rfl⟩⟩
      · simp only [pairs?, hkey, hv, hpairs, Option.bind_eq_bind, Option.bind_some, Option.pure_def]
      · exact Option.bind_eq_some_iff.mpr ⟨_, hread, rfl⟩

/-! ### Keys -/

theorem text?_eq_of_same : ∀ {v w : Value}, v.same w = true → v.text? = w.text?
  | .string a, w, h => by
    cases w with
    | string b =>
      obtain rfl := eq_of_beq h
      rfl
    | _ => cases h
  | .tagged a x, w, h => by
    cases w with
    | tagged b y =>
      have inner : x.text? = y.text? := text?_eq_of_same (Bool.and_eq_true_iff.mp h).2
      exact inner
    | _ => cases h
  | .null, w, h | .bool _, w, h | .number _, w, h | .sequence _, w, h | .mapping _, w, h => by
    cases w <;> first | rfl | cases h

theorem hasRepeatedKey_eq_false {seen : List Value} {pairs : List (Value × Value)}
    (h : pairs.mapM (named? Value.text?) = some named')
    (hseen : ∀ k ∈ seen, ∀ name ∈ named'.map (·.1), k.text? ≠ some name) (hnodup : (named'.map (·.1)).Nodup) :
    Value.hasRepeatedKey seen pairs = false := by
  induction pairs generalizing seen named' with
  | nil => rfl
  | cons e pairs ih =>
    obtain ⟨k, v⟩ := e
    obtain ⟨f, rest, hf, hrest, rfl⟩ := mapM_cons_eq_some.mp h
    obtain ⟨name, hname, ⟨⟩⟩ := Option.bind_eq_some_iff.mp hf
    obtain ⟨hnew, hnodup⟩ := List.nodup_cons.mp hnodup
    have apart : seen.any (Value.same · k) = false := by
      rw [List.any_eq_false]
      intro l hl hsame
      exact hseen l hl name (List.mem_cons_self ..) ((text?_eq_of_same hsame).trans hname)
    rw [Value.hasRepeatedKey, apart, Bool.false_or]
    refine ih hrest (fun l hl other hother => ?_) hnodup
    rcases List.mem_cons.mp hl with rfl | hl
    · rw [hname]
      rintro ⟨⟩
      exact hnew hother
    · exact hseen l hl other (List.mem_cons_of_mem _ hother)

/-! ### Fields -/

theorem FieldsDenote.keys_eq (h : FieldsDenote named named') : named'.map (·.1) = named.map (·.1) := by
  induction h with
  | nil => rfl
  | cons hf _ ih => rw [List.map_cons, List.map_cons, hf.1, ih]

theorem FieldsDenote.lookup (h : FieldsDenote named named') (name : Text) :
    Denotes (named.lookup name) (named'.lookup name) := by
  induction h with
  | nil => exact .none
  | @cons f f' _ _ hf _ ih =>
    rw [List.lookup_cons, List.lookup_cons, hf.1]
    cases name == f.1 with
    | true => exact .some hf.2
    | false => exact ih

theorem exists_fieldsDenote (h : ∀ f ∈ named, ∃ v, value? f.2 = some v) : ∃ named', FieldsDenote named named' := by
  induction named with
  | nil => exact ⟨[], .nil⟩
  | cons f named ih =>
    obtain ⟨⟨v, hv⟩, hnamed⟩ := List.forall_mem_cons.mp h
    obtain ⟨named', hfields⟩ := ih hnamed
    exact ⟨(f.1, v) :: named', .cons ⟨rfl, hv⟩ hfields⟩

theorem lookup_eq_some_of_mem {f : Text × Node} (hnodup : (named.map (·.1)).Nodup) (hf : f ∈ named) :
    named.lookup f.1 = some f.2 := by
  induction named with
  | nil => cases hf
  | cons g named ih =>
    obtain ⟨hg, hnodup⟩ := List.nodup_cons.mp hnodup
    rw [List.lookup_cons]
    rcases List.mem_cons.mp hf with rfl | hf
    · rw [beq_self_eq_true]
    · have hmem : f.1 ∈ named.map (·.1) := List.mem_map_of_mem hf
      have hne : f.1 ≠ g.1 := ne_of_mem_of_not_mem hmem hg
      rw [beq_false_of_ne hne]
      exact ih hnodup hf

theorem Denotes.unique {x : Option Node} {v w : Option Value} (h : Denotes x v) (h' : Denotes x w) : v = w := by
  cases h with
  | none =>
    cases h'
    rfl
  | some hv =>
    cases h' with
    | some hw => rw [Option.some.inj (hv.symm.trans hw)]

/-- A mapping is the same record without types exactly if its keys are settled and each of its fields denotes a value. -/
theorem record?_value?_iff {names : List Text} {tag : Option Text} {fields : List (Option Node)}
    {fields' : List (Option Value)} (h : (mapping tag entries).record? names = some fields) :
    (value? (mapping tag entries)).bind (Value.record? names) = some fields' ↔
      settledKeys entries = true ∧ List.Forall₂ Denotes fields fields' := by
  rw [record?_mapping] at h
  obtain ⟨named, hnamed, h⟩ := Option.bind_eq_some_iff.mp h
  obtain ⟨⟨hnames, hnodup⟩, rfl⟩ := select?_eq_some.mp h
  have lookups : ∀ {named'}, FieldsDenote named named' →
      List.Forall₂ Denotes (names.map (named.lookup ·)) (names.map (named'.lookup ·)) := by
    intro named' hfields
    rw [List.forall₂_map_left_iff, List.forall₂_map_right_iff, List.forall₂_same]
    exact fun name _ => hfields.lookup name
  constructor
  · intro hread
    obtain ⟨v, hv, hrecord⟩ := Option.bind_eq_some_iff.mp hread
    obtain ⟨w, hw, rfl⟩ := Option.map_eq_some_iff.mp hv
    obtain ⟨pairs, hpairs, hw⟩ := Option.bind_eq_some_iff.mp hw
    obtain rfl := mapping?_eq_some hw
    rw [record?_value, entries?_withOwnTag, Option.bind_some] at hrecord
    obtain ⟨named', hnamed', hselect⟩ := Option.bind_eq_some_iff.mp hrecord
    obtain ⟨-, rfl⟩ := select?_eq_some.mp hselect
    obtain ⟨hkeys, hfields⟩ := (mapM_named_iff hnamed).mp ⟨pairs, hpairs, hnamed'⟩
    exact ⟨hkeys, lookups hfields⟩
  · rintro ⟨hkeys, hdenote⟩
    have valued : ∀ f ∈ named, ∃ v, value? f.2 = some v := by
      intro f hf
      have hmem : named.lookup f.1 ∈ names.map (named.lookup ·) :=
        List.mem_map_of_mem (hnames f.1 (List.mem_map_of_mem hf))
      obtain ⟨v, -, hv⟩ := exists_of_forall₂ hdenote hmem
      rw [lookup_eq_some_of_mem hnodup hf] at hv
      cases hv with
      | some hv => exact ⟨_, hv⟩
    obtain ⟨named', hfields⟩ := exists_fieldsDenote valued
    obtain ⟨pairs, hpairs, hnamed'⟩ := (mapM_named_iff hnamed).mpr ⟨hkeys, hfields⟩
    have unrepeated : Value.hasRepeatedKey [] pairs = false :=
      hasRepeatedKey_eq_false hnamed' nofun (hfields.keys_eq ▸ hnodup)
    have denoted : value? (mapping tag entries) = some (withOwnTag tag (.mapping pairs)) := by
      rw [value?, hpairs, Option.bind_some, Value.mapping?, unrepeated]
      rfl
    have select : select? names named' = some fields' := by
      refine select?_eq_some.mpr ⟨hfields.keys_eq ▸ ⟨hnames, hnodup⟩, ?_⟩
      exact List.right_unique_forall₂' (R := Denotes) (fun _ _ _ => Denotes.unique) (lookups hfields) hdenote
    rw [denoted, Option.bind_some, record?_value, entries?_withOwnTag, Option.bind_some, hnamed', Option.bind_some]
    exact select

/-- A field is read alike exactly if it is absent or settled. -/
theorem field_iff {read : Option Node → Option β} {read' : Option Value → Option β} {settled : Node → Bool}
    (hnone : read none = read' none) (hf : Faithful (fun x => read (some x)) (fun v => read' (some v)) settled)
    {x : Option Node} {b : β} (h : read x = some b) :
    (∃ v, Denotes x v ∧ read' v = some b) ↔ x.all settled = true := by
  cases x with
  | none =>
    refine iff_of_true ⟨none, .none, ?_⟩ rfl
    rw [← hnone, h]
  | some x =>
    rw [Option.all_some, ← hf x b h, Option.bind_eq_some_iff]
    constructor
    · rintro ⟨_, ⟨⟩, hread⟩
      exact ⟨_, ‹_›, hread⟩
    · rintro ⟨v, hv, hread⟩
      exact ⟨some v, .some hv, hread⟩

end ShellCompletion.Yaml.Node

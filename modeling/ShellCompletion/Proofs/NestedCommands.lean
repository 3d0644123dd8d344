import ShellCompletion.Proofs.Settled

/-! When a command means the same below another command as by itself. By itself it is read from its text, below another
    command from an untyped value; so it means the same exactly if all is settled that is read with a type. -/

namespace ShellCompletion.Yaml.Node

open Source Terse

/-! ### Options -/

/-- Is an option settled? Its aliases and its values are read without a type in any case. -/
def settledOption : Node → Bool
  | mapping tag entries =>
    settledKeys entries &&
      match (mapping tag entries).record? optionFields with
      | some [_, kind, values, description] =>
        kind.all (settledOptional denotesText) && values.all (settledOptional (settledItems fun _ => true)) &&
          description.all (settledOptional denotesText)
      | _ => false
  | _ => false

theorem settledOption_eq {tag : Option Text} {entries : List (Node × Node)} {n k v d : Option Node}
    (hfields : (mapping tag entries).record? optionFields = some [n, k, v, d]) :
    settledOption (mapping tag entries) = (settledKeys entries && (k.all (settledOptional denotesText) &&
      v.all (settledOptional (settledItems fun _ => true)) && d.all (settledOptional denotesText))) := by
  rw [settledOption, hfields]

/-- An option is declared by a mapping, since it has aliases. -/
theorem exists_mapping {x n : Node} {k v d : Option Node}
    (h : x.record? optionFields = some [some n, k, v, d]) : ∃ tag entries, x = mapping tag entries := by
  cases x with
  | mapping tag entries => exact ⟨tag, entries, rfl⟩
  | scalar tag style text =>
    obtain ⟨-, hselect⟩ := Option.ite_none_right_eq_some.mp h
    obtain ⟨-, heq⟩ := select?_eq_some.mp hselect
    cases heq
  | sequence => cases h

/-- What an option declares without types is read from the values of its fields. -/
theorem optionEntry?_value?_eq_some {tag : Option Text} {entries : List (Node × Node)} {n k v d : Option Node}
    (hfields : (mapping tag entries).record? optionFields = some [n, k, v, d]) {e : OptionEntry} :
    (value? (mapping tag entries)).bind optionEntry? = some e ↔ settledKeys entries = true ∧
      ∃ n' k' v' d', (Denotes n (some n') ∧ Denotes k k' ∧ Denotes v v' ∧ Denotes d d') ∧
        (Source.value? n').bind namesOf? = some e.names ∧ Source.optional Source.text? k' = some e.kind ∧
        Source.optional (list? Source.value?) v' = some e.values ∧
        Source.optional Source.text? d' = some e.description := by
  constructor
  · intro hread
    obtain ⟨w, hw, hread⟩ := Option.bind_eq_some_iff.mp hread
    obtain ⟨n', k', v', d', hfields', reads⟩ := optionEntry?_eq_some.mp hread
    obtain ⟨hkeys, hdenote⟩ := (record?_value?_iff hfields).mp (Option.bind_eq_some_iff.mpr ⟨w, hw, hfields'⟩)
    simp only [List.forall₂_cons] at hdenote
    obtain ⟨hn, hk, hv, hd, -⟩ := hdenote
    exact ⟨hkeys, n', k', v', d', ⟨hn, hk, hv, hd⟩, reads⟩
  · rintro ⟨hkeys, n', k', v', d', ⟨hn, hk, hv, hd⟩, reads⟩
    have hdenote : List.Forall₂ Denotes [n, k, v, d] [some n', k', v', d'] := .cons hn (.cons hk (.cons hv (.cons hd .nil)))
    obtain ⟨w, hw, hfields'⟩ := Option.bind_eq_some_iff.mp ((record?_value?_iff hfields).mpr ⟨hkeys, hdenote⟩)
    exact Option.bind_eq_some_iff.mpr ⟨w, hw, optionEntry?_eq_some.mpr ⟨n', k', v', d', hfields', reads⟩⟩

theorem faithful_option : Faithful optionEntry? optionEntry? settledOption := by
  intro x e h
  obtain ⟨n, k, v, d, hfields, hnames, hkind, hvalues, hdescription⟩ := optionEntry?_eq_some.mp h
  obtain ⟨tag, entries, rfl⟩ := exists_mapping hfields
  have kind := field_iff rfl faithful_text.optional hkind
  have values := field_iff rfl faithful_value.items.optional hvalues
  have description := field_iff rfl faithful_text.optional hdescription
  rw [settledOption_eq hfields, optionEntry?_value?_eq_some hfields]
  simp only [Bool.and_eq_true, ← kind, ← values, ← description]
  constructor
  · rintro ⟨hkeys, n', k', v', d', ⟨-, hk, hv, hd⟩, -, hkind', hvalues', hdescription'⟩
    exact ⟨hkeys, ⟨⟨k', hk, hkind'⟩, v', hv, hvalues'⟩, d', hd, hdescription'⟩
  · rintro ⟨hkeys, ⟨⟨k', hk, hkind'⟩, v', hv, hvalues'⟩, d', hd, hdescription'⟩
    obtain ⟨n', hn, hnames'⟩ := Option.bind_eq_some_iff.mp hnames
    exact ⟨hkeys, n', k', v', d', ⟨.some hn, hk, hv, hd⟩, hnames', hkind', hvalues', hdescription'⟩

/-! ### Commands -/

/-- Are the entries of a command settled? Its subcommands are read without a type in any case. -/
def settledCommand (entries : List (Node × Node)) : Bool :=
  settledKeys entries &&
    match (mapping none entries).record? commandFields with
    | some [name, description, options, subs] =>
      name.all (settledOptional denotesText) && description.all (settledOptional denotesText) &&
        options.all (settledItems settledOption) && subs.all settledEntries
    | _ => false

theorem settledCommand_eq {tag : Option Text} {entries : List (Node × Node)} {n d o s : Option Node}
    (hfields : (mapping tag entries).record? commandFields = some [n, d, o, s]) :
    settledCommand entries = (settledKeys entries && (n.all (settledOptional denotesText) &&
      d.all (settledOptional denotesText) && o.all (settledItems settledOption) && s.all settledEntries)) := by
  have fields : (mapping none entries).record? commandFields = some [n, d, o, s] := hfields
  rw [settledCommand, fields]

theorem commandEntry?_value?_eq_some {tag : Option Text} {entries : List (Node × Node)} {n d o s : Option Node}
    (hfields : (mapping tag entries).record? commandFields = some [n, d, o, s]) {e : CommandEntry} :
    (value? (mapping tag entries)).bind commandEntry? = some e ↔ settledKeys entries = true ∧
      ∃ n' d' o' s', (Denotes n n' ∧ Denotes d d' ∧ Denotes o o' ∧ Denotes s s') ∧
        Source.optional Source.text? n' = some e.name ∧ Source.optional Source.text? d' = some e.description ∧
        withDefault [] (list? optionEntry?) o' = some e.options ∧
        withDefault [] Source.entries? s' = some e.subcommands := by
  constructor
  · intro hread
    obtain ⟨w, hw, hread⟩ := Option.bind_eq_some_iff.mp hread
    obtain ⟨n', d', o', s', hfields', reads⟩ := commandEntry?_eq_some.mp hread
    obtain ⟨hkeys, hdenote⟩ := (record?_value?_iff hfields).mp (Option.bind_eq_some_iff.mpr ⟨w, hw, hfields'⟩)
    simp only [List.forall₂_cons] at hdenote
    obtain ⟨hn, hd, ho, hs, -⟩ := hdenote
    exact ⟨hkeys, n', d', o', s', ⟨hn, hd, ho, hs⟩, reads⟩
  · rintro ⟨hkeys, n', d', o', s', ⟨hn, hd, ho, hs⟩, reads⟩
    have hdenote : List.Forall₂ Denotes [n, d, o, s] [n', d', o', s'] := .cons hn (.cons hd (.cons ho (.cons hs .nil)))
    obtain ⟨w, hw, hfields'⟩ := Option.bind_eq_some_iff.mp ((record?_value?_iff hfields).mpr ⟨hkeys, hdenote⟩)
    exact Option.bind_eq_some_iff.mpr ⟨w, hw, commandEntry?_eq_some.mpr ⟨n', d', o', s', hfields', reads⟩⟩

theorem commandEntry?_value?_iff {tag : Option Text} {entries : List (Node × Node)} {e : CommandEntry}
    (h : commandEntry? (mapping tag entries) = some e) :
    (value? (mapping tag entries)).bind commandEntry? = some e ↔ settledCommand entries = true := by
  obtain ⟨n, d, o, s, hfields, hname, hdescription, hoptions, hsubs⟩ := commandEntry?_eq_some.mp h
  have name := field_iff rfl faithful_text.optional hname
  have description := field_iff rfl faithful_text.optional hdescription
  have options : (∃ v, Denotes o v ∧ withDefault [] (list? optionEntry?) v = some e.options) ↔
      o.all (settledItems settledOption) = true := field_iff rfl faithful_option.items hoptions
  have subs : (∃ v, Denotes s v ∧ withDefault [] Source.entries? v = some e.subcommands) ↔
      s.all settledEntries = true := field_iff rfl faithful_entries hsubs
  rw [settledCommand_eq hfields, commandEntry?_value?_eq_some hfields]
  simp only [Bool.and_eq_true, ← name, ← description, ← options, ← subs]
  constructor
  · rintro ⟨hkeys, n', d', o', s', ⟨hn, hd, ho, hs⟩, hname', hdescription', hoptions', hsubs'⟩
    exact ⟨hkeys, ⟨⟨⟨n', hn, hname'⟩, d', hd, hdescription'⟩, o', ho, hoptions'⟩, s', hs, hsubs'⟩
  · rintro ⟨hkeys, ⟨⟨⟨n', hn, hname'⟩, d', hd, hdescription'⟩, o', ho, hoptions'⟩, s', hs, hsubs'⟩
    exact ⟨hkeys, n', d', o', s', ⟨hn, hd, ho, hs⟩, hname', hdescription', hoptions', hsubs'⟩

/-! ### Commands that mean the same

An untyped value can lose a description that is written as a null in quotes. So a command that has the same meaning
without types is compared with the declaration by what it means, and not by what is declared. -/

theorem settledOptional_of_ne {settled : Node → Bool} {x : Node} {v : Value} (hv : value? x = some v)
    (hne : v ≠ .null) (hx : settled x = true) : settledOptional settled x = true := by
  unfold settledOptional
  split
  · rfl
  · rw [denotesNull_eq_false hv hne, hx]
    rfl

/-- A field that may be written as null is null to both readings, or has a value in each. -/
theorem settledOptional_of_optional {β : Type} {read : Node → Option β} {read' : Value → Option β}
    {settled : Node → Bool} {x : Option Node} {v : Option Value} {b b' : Option β}
    (h : Source.optional read x = some b) (hv : Denotes x v) (h' : Source.optional read' v = some b')
    (quoted : ∀ tag style text c, style ≠ .plain → isNull text = true → read (scalar tag style text) = some c →
      b ≠ some c)
    (present : ∀ y w c c', value? y = some w → read y = some c → read' w = some c' → settled y = true) :
    x.all (settledOptional settled) = true := by
  cases hv with
  | none => rfl
  | @some x v hv =>
    rw [Option.all_some]
    obtain ⟨hx, -⟩ | ⟨c, hx, hc, rfl⟩ := optional_eq_some h
    · rw [settledOptional, hx]
    · by_cases hnull : v = .null
      · subst hnull
        obtain hnone | ⟨tag, style, text, rfl, hstyle, htext⟩ := optional?_of_value? hv
        · cases hx.symm.trans hnone
        · exact absurd rfl (quoted tag style text c hstyle htext hc)
      · rw [optional_value_of_ne hnull] at h'
        obtain ⟨c', hc', -⟩ := Option.map_eq_some_iff.mp h'
        exact settledOptional_of_ne hv hnull (present x v c c' hv hc hc')

theorem ofText?_of_isNull {t : Text} (h : isNull t = true) : ValueKind.ofText? t = none := by
  have unknown : ∀ t ∈ ["null".toList, "Null".toList, "NULL".toList, "~".toList], ValueKind.ofText? t = none := by
    decide
  exact unknown t (List.contains_iff_mem.mp h)

theorem settled_kind {x : Option Node} {v : Option Value} {kind kind' : Option Text}
    (h : Source.optional Source.text? x = some kind) (hv : Denotes x v)
    (h' : Source.optional Source.text? v = some kind')
    (known : ∀ t, kind = some t → (ValueKind.ofText? t).isSome = true) : x.all (settledOptional denotesText) = true := by
  refine settledOptional_of_optional h hv h' (fun tag style text t _ hnull ht heq => ?_) fun y w t t' hw _ ht' => ?_
  · obtain rfl := Option.some.inj ht
    have knownText := known text heq
    rw [ofText?_of_isNull hnull] at knownText
    cases knownText
  · have read : (value? y).bind Value.text? = some t' := Option.bind_eq_some_iff.mpr ⟨w, hw, ht'⟩
    rw [denotesText, read]
    rfl

theorem settledItems_of_scalar {settled : Node → Bool} {tag : Option Text} {style : ScalarStyle} {text : Text}
    {v : Value} {items : List Value} (hv : value? (scalar tag style text) = some v) (h : Value.items? v = some items) :
    settledItems settled (scalar tag style text) = true := by
  obtain ⟨⟨-, hnull⟩ | ⟨hnone, -⟩, -⟩ := nothing_of_scalar hv
  · exact denotesNothing_iff.mpr ⟨v, hv, hnull⟩
  · cases h.symm.trans hnone

theorem settled_values {x : Option Node} {v : Option Value} {values values' : Option (List Value)}
    (h : Source.optional (list? Source.value?) x = some values) (hv : Denotes x v)
    (h' : Source.optional (list? Source.value?) v = some values') :
    x.all (settledOptional (settledItems fun _ => true)) = true := by
  refine settledOptional_of_optional h hv h' (fun tag style text vs hstyle _ hvs _ => ?_) fun y w vs vs' hw hvs hvs' => ?_
  · obtain ⟨items, hitems, -⟩ := Option.bind_eq_some_iff.mp hvs
    obtain ⟨hnothing, -⟩ := Option.ite_none_right_eq_some.mp hitems
    unfold isNothing at hnothing
    split at hnothing
    · next heq =>
      cases heq
      exact hstyle rfl
    · cases hnothing
  · obtain ⟨items, hitems, -⟩ := Option.bind_eq_some_iff.mp hvs
    obtain ⟨items', hitems', -⟩ := Option.bind_eq_some_iff.mp hvs'
    cases y with
    | sequence tag items => simp [settledItems]
    | scalar tag style text => exact settledItems_of_scalar hw hitems'
    | mapping => cases hitems

theorem description_of_option {command : Text} {d : OptionEntry} {o : CommandOption} (h : option command d = .ok o) :
    o.description = d.description := by
  obtain ⟨kind, -, h⟩ := bind_eq_ok.mp h
  cases hvalues : d.values with
  | none =>
    rw [hvalues] at h
    cases h
    rfl
  | some values =>
    rw [hvalues] at h
    dsimp only at h
    split at h <;> cases h
    rfl

theorem known_of_option {command : Text} {d : OptionEntry} {o : CommandOption} (h : option command d = .ok o) {t : Text}
    (ht : d.kind = some t) : (ValueKind.ofText? t).isSome = true := by
  obtain ⟨kind, hkind, -⟩ := bind_eq_ok.mp h
  unfold kindOf at hkind
  rw [ht] at hkind
  dsimp only at hkind
  split at hkind
  · next hknown => rw [hknown]; rfl
  · cases hkind

theorem settledOption_of_same {x : Node} {d d' : OptionEntry} {command : Text} {o : CommandOption}
    (h : optionEntry? x = some d) (h' : (value? x).bind optionEntry? = some d') (ho : option command d = .ok o)
    (ho' : option command d' = .ok o) : settledOption x = true := by
  obtain ⟨n, k, v, l, hfields, -, hkind, hvalues, hdescription⟩ := optionEntry?_eq_some.mp h
  obtain ⟨tag, entries, rfl⟩ := exists_mapping hfields
  obtain ⟨hkeys, n', k', v', l', ⟨-, hk, hv, hl⟩, -, hkind', hvalues', hdescription'⟩ :=
    (optionEntry?_value?_eq_some hfields).mp h'
  have same : d'.description = d.description :=
    (description_of_option ho').symm.trans (description_of_option ho)
  have description := (field_iff rfl faithful_text.optional hdescription).mp ⟨l', hl, same ▸ hdescription'⟩
  rw [settledOption_eq hfields, hkeys, settled_kind hkind hk hkind' fun t => known_of_option ho,
    settled_values hvalues hv hvalues', description]
  rfl

section Same
variable {command : Text} {options : List CommandOption} {declared declared' : List OptionEntry}

theorem all_settledOption_of_same {items : List Node} (h : items.mapM optionEntry? = some declared)
    (h' : (items.mapM fun x => (value? x).bind optionEntry?) = some declared')
    (ho : List.Forall₂ (fun d o => option command d = .ok o) declared options)
    (ho' : List.Forall₂ (fun d o => option command d = .ok o) declared' options) : items.all settledOption = true := by
  induction items generalizing declared declared' options with
  | nil => rfl
  | cons x items ih =>
    obtain ⟨d, rest, hd, hrest, rfl⟩ := mapM_cons_eq_some.mp h
    obtain ⟨d', rest', hd', hrest', rfl⟩ := mapM_cons_eq_some.mp h'
    cases ho with
    | cons hdo hresto =>
      cases ho' with
      | cons hdo' hresto' =>
        rw [List.all_cons, settledOption_of_same hd hd' hdo hdo', ih hrest hrest' hresto hresto']
        rfl

theorem settled_options {x : Option Node} {v : Option Value}
    (h : withDefault [] (list? optionEntry?) x = some declared) (hv : Denotes x v)
    (h' : withDefault [] (list? optionEntry?) v = some declared')
    (ho : List.Forall₂ (fun d o => option command d = .ok o) declared options)
    (ho' : List.Forall₂ (fun d o => option command d = .ok o) declared' options) :
    x.all (settledItems settledOption) = true := by
  cases hv with
  | none => rfl
  | @some x v hv =>
    obtain ⟨items, hitems, hdeclared⟩ := Option.bind_eq_some_iff.mp h
    obtain ⟨items', hitems', hdeclared'⟩ := Option.bind_eq_some_iff.mp h'
    cases x with
    | sequence tag _ =>
      cases hitems
      obtain ⟨vs, hvs, rfl⟩ := Option.map_eq_some_iff.mp hv
      obtain rfl := Option.some.inj ((items?_withOwnTag tag vs).symm.trans hitems')
      exact all_settledOption_of_same hdeclared (mapM_bind_eq_some (values?_eq items ▸ hvs) hdeclared') ho ho'
    | scalar tag style text =>
      have settled : settledItems settledOption (scalar tag style text) = true := settledItems_of_scalar hv hitems'
      exact settled
    | mapping => cases hitems

theorem settled_subcommands {x : Option Node} {v : Option Value} {es es' : List (Value × Value)}
    (h : withDefault [] Source.entries? x = some es) (hv : Denotes x v)
    (h' : withDefault [] Source.entries? v = some es') : x.all settledEntries = true := by
  cases hv with
  | none => rfl
  | @some x v hv =>
    cases x with
    | mapping => rfl
    | scalar tag style text =>
      obtain ⟨-, ⟨-, hnull⟩ | ⟨hnone, -⟩⟩ := nothing_of_scalar hv
      · exact denotesNothing_iff.mpr ⟨v, hv, hnull⟩
      · cases h'.symm.trans hnone
    | sequence => cases h

theorem settledCommand_of_same {tag : Option Text} {entries : List (Node × Node)} {e e' : CommandEntry} {c : Command}
    {levels levels' : Nat} (h : commandEntry? (mapping tag entries) = some e) (unnamed : e.name = none)
    (h' : (value? (mapping tag entries)).bind commandEntry? = some e') (unnamed' : e'.name = none)
    (hc : commandWithin levels command e = .ok c) (hc' : commandWithin levels' command e' = .ok c) :
    settledCommand entries = true := by
  obtain ⟨n, d, o, s, hfields, hname, hdescription, hoptions, hsubs⟩ := commandEntry?_eq_some.mp h
  obtain ⟨hkeys, n', d', o', s', ⟨hn, hd, ho, hs⟩, hname', hdescription', hoptions', hsubs'⟩ :=
    (commandEntry?_value?_eq_some hfields).mp h'
  obtain ⟨-, described, declares, -⟩ := commandWithin_eq_ok_iff.mp hc
  obtain ⟨-, described', declares', -⟩ := commandWithin_eq_ok_iff.mp hc'
  have sameName : e'.name = e.name := unnamed'.trans unnamed.symm
  have sameDescription : e'.description = e.description := described'.symm.trans described
  have name := (field_iff rfl faithful_text.optional hname).mp ⟨n', hn, sameName ▸ hname'⟩
  have description := (field_iff rfl faithful_text.optional hdescription).mp ⟨d', hd, sameDescription ▸ hdescription'⟩
  rw [settledCommand_eq hfields, hkeys, name, description, settled_options hoptions ho hoptions' declares declares',
    settled_subcommands hsubs hs hsubs']
  rfl

end Same

/-! ### Documents -/

section Documents
variable {name root : Text} {body : List (Node × Node)} {x y : Node}

/-- Documents of a command by itself: its name, which is quoted, stands among the entries of its body. -/
inductive IsCommand (name : Text) : List (Node × Node) → Node → Prop where
  | mk (tag : Option Text) (front back : List (Node × Node)) (key : Node) (style : ScalarStyle)
      (hkey : key.text? = some "name".toList) (quoted : style ≠ .plain) :
    IsCommand name (front ++ back) (mapping tag (front ++ (key, scalar none style name) :: back))

/-- Documents of a command that has only this command below it. -/
inductive IsParent (root name : Text) (body : List (Node × Node)) : Node → Prop where
  | mk (tag subsTag bodyTag : Option Text) (nameKey rootNode subsKey : Node) (style : ScalarStyle)
      (hnameKey : nameKey.text? = some "name".toList) (hsubsKey : subsKey.text? = some "subcommands".toList)
      (hroot : Source.optional text? (some rootNode) = some (some root)) (quoted : style ≠ .plain) :
    IsParent root name body (mapping tag
      [(nameKey, rootNode), (subsKey, mapping subsTag [(scalar none style name, mapping bodyTag body)])])

theorem lookup_eq_none {α : Type} {l : List (Text × α)} {name : Text} (h : name ∉ l.map (·.1)) :
    l.lookup name = none := by
  rw [List.lookup_eq_none_iff]
  intro f hf
  rw [bne_iff_ne]
  rintro rfl
  exact h (List.mem_map_of_mem hf)

/-- Without one of the entries its field is absent, and all others are as before. -/
theorem select?_without {α : Type} {names : List Text} {front back : List (Text × α)} {name : Text} {a : α}
    {fields : List (Option α)} (h : select? names (front ++ (name, a) :: back) = some fields) :
    ∃ field : Text → Option α, fields = names.map field ∧ field name = some a ∧
      select? names (front ++ back) = some (names.map fun other => if other = name then none else field other) := by
  obtain ⟨⟨hnames, hnodup⟩, rfl⟩ := select?_eq_some.mp h
  rw [List.map_append, List.map_cons] at hnames hnodup
  obtain ⟨hnew, hnodup⟩ := List.nodup_cons.mp (List.nodup_middle.mp hnodup)
  rw [← List.map_append] at hnew hnodup
  refine ⟨((front ++ (name, a) :: back).lookup ·), rfl, ?_, select?_eq_some.mpr ⟨⟨fun key hkey => ?_, hnodup⟩, ?_⟩⟩
  · rw [List.map_append, List.mem_append, not_or] at hnew
    dsimp only
    rw [List.lookup_append, lookup_eq_none hnew.1, List.lookup_cons_self, Option.none_or]
  · rw [List.map_append, List.mem_append] at hkey
    refine hnames key (List.mem_append.mpr (hkey.imp_right fun hkey => List.mem_cons_of_mem _ hkey))
  · refine List.map_congr_left fun other _ => ?_
    split
    · next heq => rw [heq, lookup_eq_none hnew]
    · next hne =>
      dsimp only
      rw [List.lookup_append, List.lookup_append, List.lookup_cons, beq_false_of_ne hne]

theorem record?_without {names : List Text} {tag : Option Text} {front back : List (Node × Node)} {key : Node}
    {field : Text} {fields : List (Option Node)} (hkey : key.text? = some field)
    (h : (mapping tag (front ++ (key, x) :: back)).record? names = some fields) (tag' : Option Text) :
    ∃ f : Text → Option Node, fields = names.map f ∧ f field = some x ∧
      (mapping tag' (front ++ back)).record? names =
        some (names.map fun other => if other = field then none else f other) := by
  rw [record?_mapping, List.mapM_append] at h
  obtain ⟨named, hnamed, hselect⟩ := Option.bind_eq_some_iff.mp h
  obtain ⟨namedFront, hfront, hnamed⟩ := Option.bind_eq_some_iff.mp hnamed
  obtain ⟨namedRest, hrest, ⟨⟩⟩ := Option.bind_eq_some_iff.mp hnamed
  obtain ⟨entry, namedBack, hentry, hback, rfl⟩ := mapM_cons_eq_some.mp hrest
  obtain ⟨_, hname, ⟨⟩⟩ := Option.bind_eq_some_iff.mp hentry
  obtain rfl := Option.some.inj (hkey.symm.trans hname)
  obtain ⟨f, hfields, hfound, hselect'⟩ := select?_without hselect
  refine ⟨f, hfields, hfound, ?_⟩
  rw [record?_mapping, List.mapM_append, hfront, hback]
  exact hselect'

theorem optional_quoted {style : ScalarStyle} (quoted : style ≠ .plain) (name : Text) :
    Source.optional Source.text? (some (scalar none style name)) = some (some name) := by
  cases style with
  | plain => contradiction
  | _ => rfl

/-- What is declared for a command by itself is declared by its body, but for the name. -/
theorem IsCommand.declares (hx : IsCommand name body x) {e : CommandEntry} (h : commandEntry? x = some e)
    (tag : Option Text) :
    e.name = some name ∧ commandEntry? (mapping tag body) = some { e with name := none } := by
  obtain ⟨_, front, back, key, style, hkey, quoted⟩ := hx
  obtain ⟨n, d, o, s, hfields, hname, hdescription, hoptions, hsubs⟩ := commandEntry?_eq_some.mp h
  obtain ⟨f, heq, hfound, hbody⟩ := record?_without hkey hfields tag
  cases heq
  constructor
  · rw [hfound, optional_quoted quoted] at hname
    exact (Option.some.inj hname).symm
  · exact commandEntry?_eq_some.mpr ⟨none, _, _, _, hbody, rfl, hdescription, hoptions, hsubs⟩

theorem value?_quoted {style : ScalarStyle} (quoted : style ≠ .plain) (name : Text) :
    value? (scalar none style name) = some (.string name) := by
  simp [value?, scalarValue?, untaggedScalar?, quoted, withOwnTag, ownTag?]

theorem entries?_quoted {style : ScalarStyle} (quoted : style ≠ .plain) (tag : Option Text) (name : Text) (x : Node) :
    (mapping tag [(scalar none style name, x)]).entries? = (value? x).map fun v => [(.string name, v)] := by
  have single : ∀ v : Value, Value.mapping? [(.string name, v)] = some (.mapping [(.string name, v)]) := fun _ => rfl
  cases hv : value? x <;> simp [entries?, pairs?, value?_quoted quoted, hv, single]

/-- What is declared for a parent is its name and its only subcommand, if the body of this has a value. -/
theorem IsParent.declares (hy : IsParent root name body y) :
    Canonical.command? y = none ∧ ∃ tag, (mapping tag body).depth + 2 ≤ y.depth ∧
      commandEntry? y = (value? (mapping tag body)).map fun v =>
        { name := some root, subcommands := [(.string name, v)] } := by
  obtain ⟨tag, subsTag, bodyTag, nameKey, rootNode, subsKey, style, hnameKey, hsubsKey, hroot, quoted⟩ := hy
  have fields : ∀ subs, (mapping tag [(nameKey, rootNode), (subsKey, subs)]).record? commandFields =
      some [some rootNode, none, none, some subs] := by
    intro subs
    have namedRoot : named? text? (nameKey, rootNode) = some ("name".toList, rootNode) := by
      rw [named?, hnameKey]
      rfl
    have namedSubs : named? text? (subsKey, subs) = some ("subcommands".toList, subs) := by
      rw [named?, hsubsKey]
      rfl
    rw [record?_mapping, mapM_eq_some.mpr (.cons namedRoot (.cons namedSubs .nil))]
    rfl
  refine ⟨?_, bodyTag, ?_, ?_⟩
  · rw [Option.eq_none_iff_forall_ne_some]
    intro c hc
    obtain ⟨n, d, o, s, hfields, -, -, -, hsubs⟩ := Canonical.commandWithin?_eq_some.mp hc
    cases (fields _).symm.trans hfields
    cases hsubs
  · simp only [depth, depthOfEntries]
    omega
  · have subs := entries?_quoted quoted subsTag name (mapping bodyTag body)
    cases hv : value? (mapping bodyTag body) with
    | none =>
      rw [hv] at subs
      refine Option.eq_none_iff_forall_ne_some.mpr fun e he => ?_
      obtain ⟨n, d, o, s, hfields, -, -, -, hsubs⟩ := commandEntry?_eq_some.mp he
      cases (fields _).symm.trans hfields
      cases subs.symm.trans hsubs
    | some v =>
      rw [hv] at subs
      exact commandEntry?_eq_some.mpr ⟨_, _, _, _, fields _, hroot, rfl, rfl, subs⟩

theorem commandWithin_congr {levels : Nat} {e : CommandEntry} {c : Command} {other : Option Text} :
    commandWithin levels name { e with name := other } = .ok c ↔ commandWithin levels name e = .ok c := by
  rw [commandWithin_eq_ok_iff, commandWithin_eq_ok_iff]

theorem ne_null_of_mapping {tag : Option Text} {entries : List (Node × Node)} {v : Value}
    (hv : value? (mapping tag entries) = some v) : v ≠ .null := by
  obtain ⟨w, hw, rfl⟩ := Option.map_eq_some_iff.mp hv
  obtain ⟨pairs, -, hw⟩ := Option.bind_eq_some_iff.mp hw
  obtain rfl := mapping?_eq_some hw
  exact ne_null_of_withOwnTag nofun

theorem subcommandEntry_eq_ok {command sub : Text} {v : Value} {e : CommandEntry} (hv : v ≠ .null) :
    subcommandEntry command sub v = .ok e ↔ commandEntry? v = some e ∧ e.name = none := by
  unfold subcommandEntry
  split
  · contradiction
  · cases hread : commandEntry? v with
    | none => simp
    | some entry =>
      cases hname : entry.name with
      | none =>
        simp only [hname, Option.isSome_none, Bool.false_eq_true, if_false, Except.ok.injEq, Option.some.injEq]
        constructor
        · rintro rfl
          exact ⟨rfl, hname⟩
        · exact fun h => h.1
      | some _ =>
        simp only [hname, Option.isSome_some, if_true, Option.some.injEq]
        refine iff_of_false nofun ?_
        rintro ⟨rfl, hnone⟩
        cases hname.symm.trans hnone

theorem parent_eq_ok {v : Value} (hv : v ≠ .null) {sub : Command} :
    commandWithin Source.levelLimit root { name := some root, subcommands := [(.string name, v)] } =
        .ok { name := root, subcommands := [sub] } ↔
      sub.name = name ∧ ∃ e, commandEntry? v = some e ∧ e.name = none ∧ commandWithin 127 name e = .ok sub := by
  have declares : Declares Source.levelLimit root (.string name, v) sub ↔
      sub.name = name ∧ ∃ e, commandEntry? v = some e ∧ e.name = none ∧ commandWithin 127 name e = .ok sub := by
    constructor
    · rintro ⟨hname, e, he, below, hbelow, hsub⟩
      obtain rfl : name = sub.name := Except.ok.inj hname
      obtain ⟨hread, hunnamed⟩ := (subcommandEntry_eq_ok hv).mp he
      obtain rfl : 127 = below := Nat.succ.inj hbelow
      exact ⟨rfl, e, hread, hunnamed, hsub⟩
    · rintro ⟨rfl, e, hread, hunnamed, hsub⟩
      exact ⟨rfl, e, (subcommandEntry_eq_ok hv).mpr ⟨hread, hunnamed⟩, 127, rfl, hsub⟩
  rw [commandWithin_eq_ok_iff, ← declares]
  simp

/-- What a text means in which a command has the only subcommand `sub`. -/
theorem ofText_parent_eq_ok {t : Text} (sub : Command) (hy : ofText? t = some y)
    (nested : IsParent root name body y) :
    ∃ tag, (mapping tag body).depth < 127 ∧
      (Command.ofText .yaml t = .ok { name := root, subcommands := [sub] } ↔
        sub.name = name ∧ ∃ e, (value? (mapping tag body)).bind commandEntry? = some e ∧ e.name = none ∧
          commandWithin 127 name e = .ok sub) := by
  obtain ⟨uncanonical, tag, hdepth, hdeclares⟩ := nested.declares
  have limit : y.depth ≤ 128 := depth_le_of_ofText? hy
  refine ⟨tag, by omega, ?_⟩
  rw [Command.ofText, Command.ofSource, hy, Option.bind_some, uncanonical, Option.bind_some, hdeclares]
  cases hv : value? (mapping tag body) with
  | none => exact iff_of_false nofun fun ⟨_, _, hread, _⟩ => nomatch hread
  | some v =>
    rw [Option.bind_some]
    exact parent_eq_ok (ne_null_of_mapping hv)

/-- A command by itself means the same below another one exactly if it is settled. The text in which it stands below
    has to denote a document at all (`hy`): its collections are two deeper than in the text by itself, and the limit of
    128 holds for both. A text that is too deep by that is refused whatever it says, settled or not. -/
theorem nested_command_is_same_iff {t₁ t₂ : Text} {command : Command} (hx : ofText? t₁ = some x)
    (alone : IsCommand name body x) (hy : ofText? t₂ = some y) (nested : IsParent root name body y)
    (accepted : Format.yaml.terse? t₁ = some command) :
    Command.ofText .yaml t₂ = .ok { name := root, subcommands := [command] } ↔ settledCommand body = true := by
  obtain ⟨e, he, hmodel⟩ := Option.bind_eq_some_iff.mp accepted
  rw [hx, Option.bind_some] at he
  obtain ⟨tag, hdepth, hmeaning⟩ := ofText_parent_eq_ok command hy nested
  obtain ⟨hname, hbody⟩ := alone.declares he tag
  obtain ⟨_, hname', hcommand⟩ := model_eq_ok (toOption_eq_some.mp hmodel)
  obtain rfl := Option.some.inj (hname.symm.trans hname')
  have meaning : commandWithin 128 name { e with name := none } = .ok command := commandWithin_congr.mpr hcommand
  rw [hmeaning]
  constructor
  · rintro ⟨-, e', hread, unnamed, below⟩
    exact settledCommand_of_same hbody rfl hread unnamed meaning below
  · intro settled
    have hread := (commandEntry?_value?_iff hbody).mpr settled
    obtain ⟨v, hv, hdeclared⟩ := Option.bind_eq_some_iff.mp hread
    refine ⟨name_of_commandWithin meaning, _, hread, rfl, commandWithin_of_depth meaning fun sub hsub => ?_⟩
    -- below the parent there is one level less, but the body nests less deeply than the parent's document
    have inner := Value.depth_lt_of_mem_subcommands hdeclared hsub
    have outer := depth_le_of_value? hv
    omega

end Documents

/-! ### Texts -/

/-- A command by itself. -/
def aloneText (description : Text) : Text :=
  "name: 'sub'\ndescription: ".toList ++ description ++ "\noptions:\n- names: -h\n".toList

/-- The same command below another one. -/
def belowText (description : Text) : Text :=
  "name: root\nsubcommands:\n  'sub':\n    description: ".toList ++ description ++
    "\n    options:\n    - names: -h\n".toList

def plain (text : Text) : Node := scalar none .plain text

def describedBody (description : Text) : List (Node × Node) := [
  (plain "description".toList, plain description),
  (plain "options".toList, sequence none [mapping none [(plain "names".toList, plain "-h".toList)]])]

def aloneNode (description : Text) : Node :=
  mapping none ((plain "name".toList, scalar none .singleQuoted "sub".toList) :: describedBody description)

def belowNode (description : Text) : Node :=
  mapping none [(plain "name".toList, plain "root".toList), (plain "subcommands".toList,
    mapping none [(scalar none .singleQuoted "sub".toList, mapping none (describedBody description))])]

theorem isCommand_aloneNode (description : Text) :
    IsCommand "sub".toList (describedBody description) (aloneNode description) :=
  .mk none [] _ _ .singleQuoted rfl nofun

theorem isParent_belowNode (description : Text) :
    IsParent "root".toList "sub".toList (describedBody description) (belowNode description) :=
  .mk none none none _ _ _ .singleQuoted rfl rfl rfl nofun

theorem nested_command_is_same_described : ∃ command, Format.yaml.terse? (aloneText "a b".toList) = some command ∧
    Command.ofText .yaml (belowText "a b".toList) = .ok { name := "root".toList, subcommands := [command] } := by
  have alone : ofText? (aloneText "a b".toList) = some (aloneNode "a b".toList) := by decide +kernel
  have below : ofText? (belowText "a b".toList) = some (belowNode "a b".toList) := by decide +kernel
  have accepted : (Format.yaml.terse? (aloneText "a b".toList)).isSome = true := by decide +kernel
  obtain ⟨command, hcommand⟩ := Option.isSome_iff_exists.mp accepted
  have same := nested_command_is_same_iff alone (isCommand_aloneNode _) below (isParent_belowNode _) hcommand
  exact ⟨command, hcommand, same.mpr (by decide +kernel)⟩

/-- A description that looks like a number is a text by itself, but below another command it is a number. -/
theorem numbered_command_is_not_nested :
    ofText? (aloneText "5".toList) = some (aloneNode "5".toList) ∧
      ofText? (belowText "5".toList) = some (belowNode "5".toList) ∧
      ((Format.yaml.terse? (aloneText "5".toList)).bind (·.description)) = some "5".toList ∧
      Command.ofText .yaml (belowText "5".toList) = .error (.malformedSubcommand "root".toList "sub".toList) := by
  decide +kernel

end ShellCompletion.Yaml.Node

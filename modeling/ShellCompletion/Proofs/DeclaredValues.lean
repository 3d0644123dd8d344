import ShellCompletion.Proofs.CommandTree
import ShellCompletion.Proofs.SchemaAgreement

/-! What becomes of the values that an option declares. Wherever in a document the option stands, it takes an argument
    and offers a word for each of the values in order; only values that have no word are left out, and these are null
    and what cannot be written. -/

namespace ShellCompletion

/-! ### Words -/

namespace Terse

/-- Can a value be offered? Null cannot, nor can what has no text. -/
def hasWord : Value → Bool
  | .null => false
  | v => Yaml.Writer.isWritable v

/-- The word of a value. A string is its own word. -/
structure IsWordOf (v : Value) (word : Text) : Prop where
  eq : word? v = some word
  string : ∀ t, v = .string t → word = t

theorem isSome_word? (v : Value) : (word? v).isSome = hasWord v := by
  have written : ((Yaml.write? v).map Text.trim).isSome = Yaml.Writer.isWritable v := by
    cases h : Yaml.Writer.isWritable v <;> simp [Yaml.write?, h]
  cases v with
  | null => rfl
  | bool b => cases b <;> rfl
  | number n => rfl
  | string t => rfl
  | sequence items => exact written
  | mapping entries => exact written
  | tagged tag v => exact written

theorem isWordOf_of_word? {v : Value} {word : Text} (h : word? v = some word) : IsWordOf v word where
  eq := h
  string := by
    rintro t rfl
    exact (Option.some.inj h).symm

theorem forall₂_words (values : List Value) :
    List.Forall₂ IsWordOf (values.filter hasWord) (values.filterMap word?) := by
  induction values with
  | nil => exact .nil
  | cons v values ih =>
    have hsome := isSome_word? v
    cases h : word? v with
    | none =>
      rw [h] at hsome
      rw [List.filter_cons_of_neg (by simp [← hsome]), List.filterMap_cons_none h]
      exact ih
    | some word =>
      rw [h] at hsome
      rw [List.filter_cons_of_pos hsome.symm, List.filterMap_cons_some h]
      exact .cons (isWordOf_of_word? h) ih

theorem hasWord_of_forall₂ {values : List Value} {words : List Text} (h : List.Forall₂ IsWordOf values words) :
    ∀ v ∈ values, hasWord v = true := by
  induction h with
  | nil => exact nofun
  | cons hword _ ih =>
    refine List.forall_mem_cons.mpr ⟨?_, ih⟩
    rw [← isSome_word?, hword.eq]
    rfl

/-! ### Options -/

/-- What an option has that declares values: an argument, and the words of its values as candidates. -/
structure Offers (values : List Value) (o : CommandOption) : Prop where
  takesArgument : o.takesArgument = true
  candidates : ∃ words, o.candidates = some words ∧ List.Forall₂ IsWordOf (values.filter hasWord) words
  /-- No value is left out exactly if each has a word. -/
  complete : (∃ words, o.candidates = some words ∧ List.Forall₂ IsWordOf values words) ↔
    ∀ v ∈ values, hasWord v = true

theorem offers_of_candidates {values : List Value} {o : CommandOption} (htakes : o.takesArgument = true)
    (h : o.candidates = some (values.filterMap word?)) : Offers values o where
  takesArgument := htakes
  candidates := ⟨_, h, forall₂_words values⟩
  complete := by
    constructor
    · rintro ⟨words, -, hwords⟩
      exact hasWord_of_forall₂ hwords
    · intro hall
      have words := forall₂_words values
      rw [List.filter_eq_self.mpr hall] at words
      exact ⟨_, h, words⟩

/-- An option offers the values that are declared for it, if any are. -/
def OffersDeclared (declared : OptionEntry) (o : CommandOption) : Prop :=
  ∀ values, declared.values = some values → Offers values o

theorem offersDeclared_of_option {command : Text} {declared : OptionEntry} {o : CommandOption}
    (h : option command declared = .ok o) : OffersDeclared declared o := by
  intro values hvalues
  obtain ⟨kind, -, h⟩ := bind_eq_ok.mp h
  rw [hvalues] at h
  dsimp only at h
  split at h
  · next htakes =>
    cases h
    exact offers_of_candidates htakes rfl
  · cases h

/-! ### Commands -/

/-- The subcommand that an entry of `command` declares, with a tree of fewer levels. -/
def Declares (levels : Nat) (command : Text) (declared : Value × Value) (sub : Command) : Prop :=
  keyName command declared.1 = .ok sub.name ∧ ∃ entry, subcommandEntry command sub.name declared.2 = .ok entry ∧
    ∃ below, levels = below + 1 ∧ commandWithin below sub.name entry = .ok sub

theorem name_of_commandWithin {levels : Nat} {name : Text} {e : CommandEntry} {c : Command}
    (h : commandWithin levels name e = .ok c) : c.name = name := by
  unfold commandWithin at h
  obtain ⟨_, -, h⟩ := bind_eq_ok.mp h
  obtain ⟨_, -, ⟨⟩⟩ := bind_eq_ok.mp h
  rfl

/-- A command is declared by its parts, and its subcommands one level below. -/
theorem commandWithin_eq_ok_iff {levels : Nat} {name : Text} {e : CommandEntry} {c : Command} :
    commandWithin levels name e = .ok c ↔ c.name = name ∧ c.description = e.description ∧
      List.Forall₂ (fun d o => option name d = .ok o) e.options c.options ∧
      List.Forall₂ (Declares levels name) e.subcommands c.subcommands := by
  unfold commandWithin
  simp only [bind_eq_ok, mapM_eq_ok]
  constructor
  · rintro ⟨options, hoptions, subs, hsubs, ⟨⟩⟩
    refine ⟨rfl, rfl, hoptions, hsubs.imp ?_⟩
    rintro declared sub ⟨named, hnamed, entry, hentry, h⟩
    cases levels with
    | zero => cases h
    | succ below =>
      obtain rfl := name_of_commandWithin h
      exact ⟨hnamed, entry, hentry, below, rfl, h⟩
  · obtain ⟨name', description, options, subs⟩ := c
    rintro ⟨rfl, rfl, hoptions, hsubs⟩
    refine ⟨options, hoptions, subs, hsubs.imp ?_, rfl⟩
    rintro declared sub ⟨hnamed, entry, hentry, below, rfl, h⟩
    exact ⟨_, hnamed, entry, hentry, h⟩

/-! ### Places -/

/-- What is declared for a subcommand. -/
def declaration? : Value → Option CommandEntry
  | .null => some {}
  | v => commandEntry? v

/-- What is declared at a place, which is given by the positions of the commands that lead to it from the root. -/
def CommandEntry.at? : List Nat → CommandEntry → Option CommandEntry
  | [], e => some e
  | i :: place, e => (e.subcommands[i]?).bind fun declared => (declaration? declared.2).bind (at? place)

theorem declaration?_of_subcommandEntry {command name : Text} {v : Value} {e : CommandEntry}
    (h : subcommandEntry command name v = .ok e) : declaration? v = some e := by
  unfold subcommandEntry at h
  split at h
  · cases h
    rfl
  · next hnull =>
    split at h
    · cases h
    · next entry hentry =>
      split at h
      · cases h
      · cases h
        unfold declaration?
        split
        · exact absurd rfl hnull
        · exact hentry

end Terse

/-- The command at a place, which is given as for declarations. -/
def Command.at? : List Nat → Command → Option Command
  | [], c => some c
  | i :: place, c => (c.subcommands[i]?).bind (at? place)

namespace Terse

/-- The options of a command are those of its declaration in order, and each offers what is declared for it. -/
def OptionsOffer (e : CommandEntry) (c : Command) : Prop := List.Forall₂ OffersDeclared e.options c.options

/-- Each command of a tree offers what is declared at its place, and nothing is declared at any other place. -/
theorem optionsOffer_at {levels : Nat} {name : Text} {e : CommandEntry} {c : Command}
    (h : commandWithin levels name e = .ok c) (place : List Nat) :
    Option.Rel OptionsOffer (e.at? place) (c.at? place) := by
  -- the step goes down one level of both trees at once, and so the entry and the command change with the place
  induction place generalizing levels name e c with
  | nil =>
    obtain ⟨-, -, hoptions, -⟩ := commandWithin_eq_ok_iff.mp h
    exact .some (hoptions.imp fun _ _ => offersDeclared_of_option)
  | cons i place ih =>
    obtain ⟨-, -, -, hsubs⟩ := commandWithin_eq_ok_iff.mp h
    rw [CommandEntry.at?, Command.at?]
    have there := rel_getElem? hsubs i
    generalize e.subcommands[i]? = declared? at there
    generalize c.subcommands[i]? = sub? at there
    cases there with
    | none => exact .none
    | some hdeclares =>
      obtain ⟨-, entry, hentry, below, -, hsub⟩ := hdeclares
      rw [Option.bind_some, Option.bind_some, declaration?_of_subcommandEntry hentry]
      exact ih hsub

/-! ### Documents that both schemas read -/

section Both
open Source
variable {α : Type} [Source α] [Coherent α]

theorem values_eq_none {x : α} {o : CommandOption} {d : OptionEntry} (h : Canonical.option? x = some o)
    (h' : optionEntry? x = some d) : d.values = none := by
  obtain ⟨n, t, c, f, _, hfields, -, htakes, -⟩ := Canonical.option?_eq_some.mp h
  obtain ⟨n', k, v, _, hfields', -, hkind, hvalues, -⟩ := optionEntry?_eq_some.mp h'
  obtain ⟨-, -, -, -, -, -, rfl⟩ := Coherent.common_fields hfields hfields' htakes hkind
  exact (Option.some.inj hvalues).symm

theorem forall₂_offersDeclared {x : Option α} {options : List CommandOption} {declared : List OptionEntry}
    (h : withDefault [] (list? Canonical.option?) x = some options)
    (h' : withDefault [] (list? optionEntry?) x = some declared) : List.Forall₂ OffersDeclared declared options := by
  cases x with
  | none =>
    cases h
    cases h'
    exact .nil
  | some x =>
    obtain ⟨items, hitems, hoptions⟩ := Option.bind_eq_some_iff.mp h
    obtain ⟨items', hitems', hdeclared⟩ := Option.bind_eq_some_iff.mp h'
    obtain rfl := Option.some.inj (hitems.symm.trans hitems')
    clear h h' hitems hitems'
    induction items generalizing options declared with
    | nil =>
      cases hoptions
      cases hdeclared
      exact .nil
    | cons item items ih =>
      obtain ⟨o, options, ho, hrest, rfl⟩ := mapM_cons_eq_some.mp hoptions
      obtain ⟨d, declared, hd, hrest', rfl⟩ := mapM_cons_eq_some.mp hdeclared
      refine .cons ?_ (ih hrest hrest')
      intro values hvalues
      rw [values_eq_none ho hd] at hvalues
      cases hvalues

/-- In such a document no option declares values, and there are no subcommands. -/
theorem optionsOffer_at_of_canonical {x : α} {c : Command} {e : CommandEntry} (h : Canonical.command? x = some c)
    (h' : commandEntry? x = some e) (place : List Nat) : Option.Rel OptionsOffer (e.at? place) (c.at? place) := by
  obtain ⟨n, d, o, s, hfields, -, -, hoptions, hsubs⟩ := Canonical.commandWithin?_eq_some.mp h
  obtain ⟨n', d', o', s', hfields', -, -, hoptions', hsubs'⟩ := commandEntry?_eq_some.mp h'
  cases hfields.symm.trans hfields'
  cases place with
  | nil => exact .some (forall₂_offersDeclared hoptions hoptions')
  | cons i place =>
    obtain ⟨hnil, hnil'⟩ := subcommandFields_empty hsubs hsubs'
    rw [CommandEntry.at?, Command.at?, hnil, hnil']
    exact .none

theorem optionsOffer_at_of_source {malformed : Failure} {document : Option α} {e : CommandEntry} {c : Command}
    (h : Command.ofSource malformed document = .ok c) (he : document.bind commandEntry? = some e) (place : List Nat) :
    Option.Rel OptionsOffer (e.at? place) (c.at? place) := by
  unfold Command.ofSource at h
  split at h
  · next model hcanonical =>
    cases h
    obtain ⟨x, rfl, hx⟩ := Option.bind_eq_some_iff.mp hcanonical
    exact optionsOffer_at_of_canonical hx he place
  · rw [he] at h
    obtain ⟨name, -, hc⟩ := model_eq_ok h
    exact optionsOffer_at hc place

end Both
end Terse

/-! ### Texts -/

/-- What a text declares for its root, read by the terse schema. -/
def Format.declaration? (format : Format) (t : Text) : Option Terse.CommandEntry :=
  match format with
  | yaml => (Yaml.Node.ofText? t).bind Terse.commandEntry?
  | json => (Json.read? t).bind Terse.commandEntry?

namespace Command
variable {format : Format} {t : Text} {model : Command} {entry : Terse.CommandEntry}

/-- The model of a terse document has a command wherever the document declares one, and an option of it for each that is
    declared, in order. An option that declares values takes an argument and offers the word of each value that has one;
    so it offers all of them exactly if none is null or cannot be written. -/
theorem declared_values_are_offered (accepted : ofText format t = .ok model) (declared : format.declaration? t = some entry)
    (place : List Nat) : Option.Rel Terse.OptionsOffer (entry.at? place) (model.at? place) := by
  cases format with
  | yaml => exact Terse.optionsOffer_at_of_source accepted declared place
  | json => exact Terse.optionsOffer_at_of_source accepted declared place

def graded : Text := "name: demo\nsubcommands:\n  run:\n    options:\n    - names: -l\n      values: [a b, 7, true, [1]]\n".toList

theorem graded_values_are_offered : ∃ model entry, ofText .yaml graded = .ok model ∧
    Format.yaml.declaration? graded = some entry ∧ ∀ place, Option.Rel Terse.OptionsOffer (entry.at? place) (model.at? place) := by
  have accepted : (ofText .yaml graded).toOption.isSome = true := by decide +kernel
  have declared : (Format.yaml.declaration? graded).isSome = true := by decide +kernel
  obtain ⟨model, hmodel⟩ := Option.isSome_iff_exists.mp accepted
  obtain ⟨entry, hentry⟩ := Option.isSome_iff_exists.mp declared
  have hmodel := toOption_eq_some.mp hmodel
  exact ⟨model, entry, hmodel, hentry, declared_values_are_offered hmodel hentry⟩

/-- A model of an option with three values, one of them null. -/
def gapped : Text := "name: demo\noptions:\n- names: --level\n  values: [a, ~, b]\n".toList

/-- The model is accepted, but its option offers two values. -/
theorem null_value_is_dropped :
    (Format.yaml.declaration? gapped).map (fun e => e.options.map fun d => d.values.map List.length) = some [some 3] ∧
      (ofText .yaml gapped).toOption.map (fun c => c.options.map (·.candidates)) =
        some [some ["a".toList, "b".toList]] := by
  decide +kernel

end Command
end ShellCompletion

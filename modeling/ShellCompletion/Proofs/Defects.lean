import ShellCompletion.CompletionFunction
import ShellCompletion.Proofs.Outcome

/-! What is wrong with a command, as a list of all its defects in order. A check fails with the first of the defects
    that it is there to find, and succeeds if there are none. -/

namespace ShellCompletion

/-! ### Reports -/

/-- What becomes of a check that finds these defects. -/
def report : List Failure → Except Failure Unit
  | [] => .ok ()
  | f :: _ => .error f

variable {ds : List Failure} {f : Failure}

theorem report_append (es : List Failure) : report (ds ++ es) = (report ds >>= fun _ => report es) := by
  cases ds <;> rfl

theorem report_eq_ok : report ds = .ok () ↔ ds = [] := by
  cases ds <;> simp [report]

/-- A value that only defects stand in the way of is missed for the first of them. -/
theorem report_bind_eq_error {α : Type} {a : α} : (report ds >>= fun _ => .ok a) = .error f ↔ ds.head? = some f := by
  cases ds <;> simp [report, bind, Except.bind]

/-- A way to act on findings one after the other: what comes first is acted on first. -/
structure InOrder {m : Type → Type} [Monad m] {φ : Type} (act : List φ → m Unit) : Prop where
  nil : act [] = pure ()
  append : ∀ fs gs, act (fs ++ gs) = (act fs >>= fun _ => act gs)

theorem inOrder_report : InOrder report := ⟨rfl, fun _ => report_append⟩

/-- A check of each element acts on the findings of all. -/
theorem InOrder.forM_eq {m : Type → Type} [Monad m] {φ α : Type} {act : List φ → m Unit} (inOrder : InOrder act)
    {findings : α → List φ} {check : α → m Unit} (h : ∀ a, check a = act (findings a)) (l : List α) :
    l.forM check = act (l.flatMap findings) := by
  induction l with
  | nil => exact inOrder.nil.symm
  | cons a l ih =>
    show (check a >>= fun _ => l.forM check) = _
    rw [List.flatMap_cons, inOrder.append, h, ih]

section
variable {α β : Type} {defects : α → List Failure}

/-- Where defects are all that stands between the elements and their values, so it is with the whole list. -/
theorem mapM_eq_report {value : α → β} {g : α → Except Failure β}
    (h : ∀ a, g a = (report (defects a) >>= fun _ => .ok (value a))) (l : List α) :
    l.mapM g = (report (l.flatMap defects) >>= fun _ => .ok (l.map value)) := by
  induction l with
  | nil => rfl
  | cons a l ih =>
    rw [List.mapM_cons, List.flatMap_cons, report_append, h, ih]
    cases report (defects a) with
    | error e => rfl
    | ok u => cases report (l.flatMap defects) <;> rfl

end

/-! ### Names -/

/-- Each member of a list with those before it, the nearest first; `earlier` are before them all. -/
def withEarlier {α : Type} (earlier : List α) : List α → List (List α × α)
  | [] => []
  | a :: l => (earlier, a) :: withEarlier (a :: earlier) l

/-- What is wrong with names in order: first with a name by itself, then that it was given before. -/
def nameDefects (own : Text → List Failure) (repeated : Text → Failure) (earlier names : List Text) : List Failure :=
  (withEarlier earlier names).flatMap fun (earlier, name) =>
    own name ++ if name ∈ earlier then [repeated name] else []

/-- The words are distinct, and none of them was given before. -/
structure Fresh (earlier names : List Text) : Prop where
  nodup : names.Nodup
  notMem : ∀ name ∈ names, name ∉ earlier

section
variable {own : Text → List Failure} {repeated : Text → Failure} {earlier earlier' seen names : List Text} {name : Text}

theorem fresh_of_nothing : Fresh [] names ↔ names.Nodup :=
  ⟨fun h => h.nodup, fun h => ⟨h, fun _ _ => List.not_mem_nil⟩⟩

theorem fresh_nil : Fresh earlier [] := ⟨List.nodup_nil, nofun⟩

theorem fresh_append {more : List Text} :
    Fresh earlier (names ++ more) ↔ Fresh earlier names ∧ Fresh (names ++ earlier) more := by
  constructor
  · rintro ⟨hnodup, hmem⟩
    obtain ⟨hnames, hmore, hdisjoint⟩ := List.nodup_append.mp hnodup
    obtain ⟨hearlier, hearlier'⟩ := List.forall_mem_append.mp hmem
    refine ⟨⟨hnames, hearlier⟩, hmore, fun n hn h => ?_⟩
    rcases List.mem_append.mp h with h | h
    · exact hdisjoint n h n hn rfl
    · exact hearlier' n hn h
  · rintro ⟨⟨hnames, hearlier⟩, hmore, hnot⟩
    refine ⟨List.nodup_append.mpr ⟨hnames, hmore, ?_⟩, List.forall_mem_append.mpr ⟨hearlier, fun n hn h => ?_⟩⟩
    · rintro n hn _ hn' rfl
      exact hnot n hn' (List.mem_append_left _ hn)
    · exact hnot n hn (List.mem_append_right _ h)

theorem fresh_cons : Fresh earlier (name :: names) ↔ name ∉ earlier ∧ Fresh (name :: earlier) names := by
  have one : Fresh earlier [name] ↔ name ∉ earlier :=
    ⟨fun h => h.notMem name List.mem_cons_self, fun h => ⟨by simp, by simpa using h⟩⟩
  rw [← one]
  exact @fresh_append earlier [name] names

theorem nameDefects_cons :
    nameDefects own repeated earlier (name :: names) =
      own name ++ (if name ∈ earlier then [repeated name] else []) ++
        nameDefects own repeated (name :: earlier) names := rfl

theorem nameDefects_eq_nil :
    nameDefects own repeated earlier names = [] ↔ (∀ name ∈ names, own name = []) ∧ Fresh earlier names := by
  induction names generalizing earlier with
  | nil => simp [nameDefects, withEarlier, fresh_nil]
  | cons name names ih =>
    rw [nameDefects_cons, List.append_eq_nil_iff, List.append_eq_nil_iff, ih, fresh_cons, List.forall_mem_cons]
    by_cases h : name ∈ earlier <;> simp [h, and_assoc]

/-- Only the order of what was given before is free. -/
theorem nameDefects_congr (h : ∀ n, n ∈ earlier ↔ n ∈ earlier') :
    nameDefects own repeated earlier names = nameDefects own repeated earlier' names := by
  induction names generalizing earlier earlier' with
  | nil => rfl
  | cons name names ih =>
    have rest : nameDefects own repeated (name :: earlier) names = nameDefects own repeated (name :: earlier') names :=
      ih (by simp [h])
    rw [nameDefects_cons, nameDefects_cons, rest]
    simp only [h name]

theorem mem_nameDefects (h : f ∈ nameDefects own repeated earlier names) :
    ∃ name ∈ names, f ∈ own name ∨ f = repeated name := by
  induction names generalizing earlier with
  | nil => cases h
  | cons name names ih =>
    rw [nameDefects_cons, List.mem_append, List.mem_append] at h
    rcases h with (h | h) | h
    · exact ⟨name, List.mem_cons_self, Or.inl h⟩
    · split at h
      · exact ⟨name, List.mem_cons_self, Or.inr (List.mem_singleton.mp h)⟩
      · cases h
    · obtain ⟨n, hn, h⟩ := ih h
      exact ⟨n, List.mem_cons_of_mem _ hn, h⟩

end

/-! ### Options -/

/-- How the options of a command are judged: what is wrong with an option that has no name, with a name by itself, with
    a name that was given before, and with what an option says of its values. -/
structure OptionRules where
  nameless : Failure
  name : Text → List Failure
  repeated : Text → Failure
  values : CommandOption → List Failure

namespace OptionRules
variable {r : OptionRules}

/-- What is wrong with an option where other options have the earlier names. -/
def defects (r : OptionRules) (earlier : List Text) (o : CommandOption) : List Failure :=
  (if o.names = [] then [r.nameless] else []) ++ nameDefects r.name r.repeated earlier o.names ++ r.values o

/-- What is wrong with options that follow the earlier ones. -/
def allDefects (r : OptionRules) (earlier options : List CommandOption) : List Failure :=
  (withEarlier earlier options).flatMap fun (earlier, o) => r.defects (earlier.flatMap (·.names)) o

/-- What an option must keep to by itself. -/
structure Accepts (r : OptionRules) (o : CommandOption) : Prop where
  names_ne_nil : o.names ≠ []
  names : ∀ name ∈ o.names, r.name name = []
  values : r.values o = []

theorem allDefects_cons {earlier options : List CommandOption} {o : CommandOption} :
    r.allDefects earlier (o :: options) =
      r.defects (earlier.flatMap (·.names)) o ++ r.allDefects (o :: earlier) options := rfl

theorem defects_eq_nil {earlier : List Text} {o : CommandOption} :
    r.defects earlier o = [] ↔ r.Accepts o ∧ Fresh earlier o.names := by
  have named : (if o.names = [] then [r.nameless] else []) = [] ↔ o.names ≠ [] := by
    split <;> simp [*]
  rw [defects, List.append_eq_nil_iff, List.append_eq_nil_iff, named, nameDefects_eq_nil]
  constructor
  · rintro ⟨⟨hnil, hnames, hfresh⟩, hvalues⟩
    exact ⟨⟨hnil, hnames, hvalues⟩, hfresh⟩
  · rintro ⟨⟨hnil, hnames, hvalues⟩, hfresh⟩
    exact ⟨⟨hnil, hnames, hfresh⟩, hvalues⟩

theorem allDefects_eq_nil {earlier options : List CommandOption} :
    r.allDefects earlier options = [] ↔
      (∀ o ∈ options, r.Accepts o) ∧ Fresh (earlier.flatMap (·.names)) (options.flatMap (·.names)) := by
  induction options generalizing earlier with
  | nil => simp [allDefects, withEarlier, fresh_nil]
  | cons o options ih =>
    rw [allDefects_cons, List.append_eq_nil_iff, defects_eq_nil, ih, List.forall_mem_cons, List.flatMap_cons,
      List.flatMap_cons, fresh_append]
    exact and_and_and_comm

theorem defects_congr {earlier earlier' : List Text} (h : ∀ n, n ∈ earlier ↔ n ∈ earlier') (o : CommandOption) :
    r.defects earlier o = r.defects earlier' o := by
  rw [defects, defects, nameDefects_congr h]

end OptionRules

/-- A check of one option after the other, which hands on the names that it has seen, acts on what there is to find in
    each option where those before it have their names. -/
theorem InOrder.foldlM_eq {m : Type → Type} [Monad m] [LawfulMonad m] {φ : Type} {act : List φ → m Unit}
    (inOrder : InOrder act) {findings : List Text → CommandOption → List φ}
    {check : List Text → CommandOption → m (List Text)}
    (hcheck : ∀ seen o, check seen o = (act (findings seen o) >>= fun _ => pure (o.names.reverse ++ seen)))
    (hcongr : ∀ {seen seen'} o, (∀ n, n ∈ seen ↔ n ∈ seen') → findings seen o = findings seen' o) {seen : List Text}
    {earlier : List CommandOption} (hseen : ∀ n, n ∈ seen ↔ n ∈ earlier.flatMap (·.names))
    (options : List CommandOption) :
    (options.foldlM check seen >>= fun _ => pure ()) =
      act ((withEarlier earlier options).flatMap fun (earlier, o) => findings (earlier.flatMap (·.names)) o) := by
  induction options generalizing seen earlier with
  | nil =>
    rw [List.foldlM_nil, pure_bind]
    exact inOrder.nil.symm
  | cons o options ih =>
    have hseen' : ∀ n, n ∈ o.names.reverse ++ seen ↔ n ∈ (o :: earlier).flatMap (·.names) := by
      simp [hseen]
    rw [withEarlier, List.flatMap_cons, inOrder.append, List.foldlM_cons, hcheck, hcongr o hseen, bind_assoc,
      bind_assoc]
    congr 1
    funext _
    rw [pure_bind, ih hseen']

/-! ### Words -/

/-- What is wrong with a word for the shell. -/
def wordDefects (command : Text) (use : WordUse) (word : Text) : List Failure :=
  if word = [] then [.emptyWord command use] else if word.hasSpace then [.spacedWord command use word] else []

theorem checkWord_eq_report (command : Text) (use : WordUse) (word : Text) :
    checkWord command use word = report (wordDefects command use word) := by
  cases word with
  | nil => rfl
  | cons c word => cases h : Text.hasSpace (c :: word) <;> simp [checkWord, wordDefects, h, report]

/-- The values that are offered for an option. -/
def CommandOption.values (o : CommandOption) : List Text := (o.policy.bind Policy.candidates).getD []

namespace OptionTable
variable {command : Text} {seen : List Text}

/-- Names and values must be words for the shell. -/
def rules (command : Text) : OptionRules where
  nameless := .namelessOption command
  name := wordDefects command .optionName
  repeated := .duplicateOption command
  values o := o.values.flatMap (wordDefects command .completionValue)

theorem checkNames_eq_report (names : List Text) :
    checkNames command seen names =
      (report (nameDefects (rules command).name (rules command).repeated seen names) >>= fun _ =>
        .ok (names.reverse ++ seen)) := by
  induction names generalizing seen with
  | nil => rfl
  | cons name names ih =>
    rw [checkNames, checkWord_eq_report, nameDefects_cons, report_append, report_append, bind_assoc, bind_assoc]
    congr 1
    funext _
    by_cases h : name ∈ seen
    · simp [h, rules, report, bind, Except.bind]
    · simp [h, ih, report, bind, Except.bind]

theorem checkOption_eq_report (command : Text) (seen : List Text) (o : CommandOption) :
    checkOption command seen o =
      (report ((rules command).defects seen o) >>= fun _ => .ok (o.names.reverse ++ seen)) := by
  have values : o.values.forM (checkWord command .completionValue) = report ((rules command).values o) :=
    inOrder_report.forM_eq (checkWord_eq_report command .completionValue) _
  by_cases hnil : o.names = []
  · simp [checkOption, OptionRules.defects, rules, hnil, report, bind, Except.bind]
  · have named : checkOption command seen o =
        (checkNames command seen o.names >>= fun seen =>
          o.values.forM (checkWord command .completionValue) >>= fun _ => .ok seen) := by
      simp [checkOption, hnil, bind, Except.bind, pure, Except.pure, CommandOption.values]
    rw [named, values, checkNames_eq_report, OptionRules.defects, if_neg hnil, List.nil_append, report_append,
      bind_assoc, bind_assoc]
    rfl

theorem check_eq_report (c : Command) : check c = report ((rules c.name).allDefects [] c.options) :=
  inOrder_report.foldlM_eq (checkOption_eq_report c.name) (fun o h => OptionRules.defects_congr h o) (by simp) c.options

end OptionTable

/-! ### Commands -/

/-- What is wrong with a command: with its name, then with the names of its subcommands, then with its options. -/
def Command.defects (c : Command) : List Failure :=
  wordDefects c.name .commandName c.name ++
    nameDefects (wordDefects c.name .subcommandName) (.repeatedSubcommand c.name) [] c.subcommandNames ++
    (OptionTable.rules c.name).allDefects [] c.options

namespace CompletionFunction

theorem checkSubcommands_eq_report {command : Text} {seen : List Text} (names : List Text) :
    checkSubcommands command seen names =
      report (nameDefects (wordDefects command .subcommandName) (.repeatedSubcommand command) seen names) := by
  induction names generalizing seen with
  | nil => rfl
  | cons name names ih =>
    rw [checkSubcommands, checkWord_eq_report, nameDefects_cons, report_append, report_append, bind_assoc]
    congr 1
    funext _
    by_cases h : name ∈ seen <;> simp [h, ih, report, bind, Except.bind]

end CompletionFunction
end ShellCompletion

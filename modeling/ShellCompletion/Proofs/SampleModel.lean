import ShellCompletion.ModelFile
import ShellCompletion.Proofs.Yaml.Continuation
import ShellCompletion.Proofs.Yaml.SingleQuotes
import ShellCompletion.Tool.Init

/-! The sample model file read back. Whatever the name is, the text is lexed in three parts: the notes are passed over,
    the quoted name becomes what it folds into, and the body is read as if it stood alone, so that it need be evaluated
    only once. -/

namespace ShellCompletion.Yaml

/-! ### The first entry of a mapping -/

section FirstEntry
open Yaml.Tree Yaml.Node
variable {style style' : ScalarStyle} {t t' : Text} {ts : List Token} {r : Reader} {entries : List (Tree × Tree)}
  {nodes : List (Node × Node)}

theorem Tree.ofTokens?_mapping
    (h : Read.blockEntries (3 * ts.length + 16) { tokens := ts, tags := Read.defaultTags } = some (entries, r))
    (hr : r.tokens = [.streamEnd]) :
    ofTokens? (.blockMapping :: .key :: .scalar style t :: .value :: .scalar style' t' :: ts) =
      some (.mapping {} ((.scalar {} style t, .scalar {} style' t') :: entries)) := by
  have document : Read.document (3 * ts.length + 18)
      { tokens := .blockMapping :: .key :: .scalar style t :: .value :: .scalar style' t' :: ts } =
      (Read.blockEntries (3 * ts.length + 16) { tokens := ts, tags := Read.defaultTags }).bind fun p =>
        some (.mapping {} ((.scalar {} style t, .scalar {} style' t') :: p.1), p.2) := by
    show ((Read.blockEntries (3 * ts.length + 16) { tokens := ts, tags := Read.defaultTags }).bind _).bind _ = _
    rw [Option.bind_assoc]
    rfl
  show ((Read.document (3 * ts.length + 18) _).bind _) = _
  rw [document, h]
  simp [hr]

/-- The entry of a mapping that stands in no other collection. -/
def Node.Anchors.outerEntry (anchors : Anchors) (e : Tree × Tree) : Expand (Node × Node) := do
  return (← anchors.expand 127 e.1, ← anchors.expand 127 e.2)

/-- The entries that tokens list behind the first entry of a mapping. -/
def laterEntries? (ts : List Token) : Option (List (Node × Node)) := do
  let (entries, r) ← Read.blockEntries (3 * ts.length + 16) { tokens := ts, tags := Read.defaultTags }
  if r.tokens = [.streamEnd] then
    let anchors : Anchors := ⟨anchoredEntries entries, followLimit * (4 + sizeEntries entries)⟩
    ((entries.mapM anchors.outerEntry).run 0).map (·.1)
  else none

theorem Node.ofTree?_mapping : ofTree? (.mapping {} ((.scalar {} style t, .scalar {} style' t') :: entries)) =
    ((entries.mapM (Anchors.outerEntry ⟨anchoredEntries entries, followLimit * (4 + sizeEntries entries)⟩)).run 0).map
      fun p => .mapping none ((.scalar none style t, .scalar none style' t') :: p.1) := by
  have size : (Tree.mapping {} ((.scalar {} style t, .scalar {} style' t') :: entries)).size =
      4 + sizeEntries entries := by
    simp only [Tree.size, sizeEntries]
    omega
  rw [ofTree?, size]
  generalize hanchors : (⟨anchoredEntries entries, followLimit * (4 + sizeEntries entries)⟩ : Anchors) = anchors
  have outer (es : List (Tree × Tree)) : (anchors.expand levelLimit (.mapping {} es)).run 0 =
      ((es.mapM anchors.outerEntry).run 0).bind fun p => some (.mapping none p.1, p.2) := rfl
  have first (es : List (Tree × Tree)) :
      ((((.scalar {} style t, .scalar {} style' t') :: es).mapM anchors.outerEntry).run 0) =
        ((es.mapM anchors.outerEntry).run 0).bind fun p =>
          some ((.scalar none style t, .scalar none style' t') :: p.1, p.2) := by
    rw [List.mapM_cons]
    rfl
  show Option.map _ ((Anchors.expand ⟨anchoredEntries entries, _⟩ levelLimit _).run 0) = _
  rw [hanchors, outer, first, Option.bind_assoc]
  cases (entries.mapM anchors.outerEntry).run 0 <;> rfl

theorem ofTree?_of_laterEntries (h : laterEntries? ts = some nodes) :
    (Tree.ofTokens? (.blockMapping :: .key :: .scalar style t :: .value :: .scalar style' t' :: ts)).bind ofTree? =
      some (.mapping none ((.scalar none style t, .scalar none style' t') :: nodes)) := by
  obtain ⟨⟨entries, r⟩, hentries, h⟩ := Option.bind_eq_some_iff.mp h
  dsimp only at h
  split at h
  · next hr =>
    obtain ⟨⟨found, followed⟩, hfound, rfl⟩ := Option.map_eq_some_iff.mp h
    rw [Tree.ofTokens?_mapping hentries hr, Option.bind_some, Node.ofTree?_mapping, hfound, Option.map_some]
  · cases h

end FirstEntry
end ShellCompletion.Yaml

namespace ShellCompletion.Tool.Init
open Yaml

/-- The tokens before the name, the last one first. -/
def nameKey : List Token := [.value, .scalar .plain ['n', 'a', 'm', 'e'], .key, .blockMapping]

/-- The tokens of a mapping that begins with a name. -/
def namedTokens (name : Text) (ts : List Token) : List Token := (.scalar .singleQuoted name :: nameKey).reverse ++ ts

/-- At the first key, whose value goes on with `q` behind its apostrophe. -/
def atKey (q : Text) : Lexer := { cursor := ⟨'n' :: 'a' :: 'm' :: 'e' :: ':' :: ' ' :: '\'' :: q, 7, 0⟩ }

/-- Behind the first key, whose place is kept until the colon is met. -/
def atColon (q : Text) : Lexer where
  cursor := ⟨':' :: ' ' :: '\'' :: q, 7, 4⟩
  tokens := [.scalar .plain ['n', 'a', 'm', 'e']]
  count := 1
  keyAllowed := false
  keys := [some ⟨0, false, 7, 0⟩]

/-- Where a value begins, and where it has been read. -/
def atValue (tokens : List Token) (c : Cursor) : Lexer where
  cursor := c
  tokens := tokens ++ nameKey
  count := tokens.length + 4
  keyAllowed := false
  indent := 0
  indents := [-1]

theorem run_name (size fuel : Nat) (q : Text) : Lexer.run (size + 1) (fuel + 3) (atKey q) =
    (Scalar.singleQuoted 7 7 {} q).bind fun r =>
      Lexer.run (size + 1) fuel (atValue [.scalar .singleQuoted r.1] r.2) := by
  have key : (atKey q).lexToken 'n' ('a' :: 'm' :: 'e' :: ':' :: ' ' :: '\'' :: q) = some (atColon q) := rfl
  have colon : (atColon q).lexToken ':' (' ' :: '\'' :: q) = some (atValue [] ⟨' ' :: '\'' :: q, 7, 5⟩) := rfl
  have quote : (atValue [] ⟨'\'' :: q, 7, 6⟩).lexToken '\'' q =
      (Scalar.singleQuoted 7 7 {} q).bind fun r => some (atValue [.scalar .singleQuoted r.1] r.2) := rfl
  rw [Lexer.run_token (u := atKey q) (c := 'n') rfl rfl, key, Option.bind_some,
    Lexer.run_token (u := atColon q) (c := ':') rfl rfl, colon, Option.bind_some,
    Lexer.run_token (u := atValue [] ⟨'\'' :: q, 7, 6⟩) (c := '\'') rfl rfl, quote, Option.bind_assoc]
  rfl

/-- Behind the first entry, whatever it was. -/
def atBody (body : Text) : Lexer where
  cursor := ⟨body, 0, 0⟩
  indent := 0
  indents := [-1]

theorem noteLines_are_notes : noteLines.all Lexer.isNote = true := by decide +kernel

section Named
variable {body : Text} {ts : List Token} {size size' fuel : Nat}

/-- What follows the name is read as if nothing stood before it. -/
theorem run_behindName (unmarked : ∀ c ∈ body, Lexer.isUnmarked c = true) (hsize : body.length < size)
    (hts : Lexer.run size fuel (atBody body) = some ts) (hsize' : body.length + 1 < size') (more : Nat) (name : Text)
    {c : Cursor} (hc : c.rest = '\n' :: body) :
    Lexer.run size' (fuel + more) (atValue [.scalar .singleQuoted name] c) = some (namedTokens name ts) := by
  obtain ⟨_, line, column⟩ := c
  obtain rfl : _ = '\n' :: body := hc
  let later (n : Nat) : Lexer := { atValue [.scalar .singleQuoted name] ⟨body, n, 0⟩ with keyAllowed := true }
  have behind : Lexer.Behind (.scalar .singleQuoted name :: nameKey) (line + 1) body (atBody body) (later (line + 1)) :=
    ⟨congrArg later (Nat.zero_add (line + 1)).symm, Nat.le_refl 0, List.suffix_refl body⟩
  have note : Lexer.run size' (fuel + more) (atValue [.scalar .singleQuoted name] ⟨'\n' :: body, line, column⟩) =
      Lexer.run size' (fuel + more) (later (line + 1)) :=
    Lexer.run_note (s := atValue [.scalar .singleQuoted name] ⟨[], 0, 0⟩) (l := []) rfl hsize' _
  exact note.trans (Lexer.run_behind behind unmarked hsize (Nat.lt_of_succ_lt hsize') hts more)

/-- A name in single quotes is read as what it folds into. -/
theorem run_named (unmarked : ∀ c ∈ body, Lexer.isUnmarked c = true) (hsize : body.length < size)
    (hts : Lexer.run size fuel (atBody body) = some ts) (hsize' : body.length < size') (more : Nat) (name : Text) :
    Lexer.run (size' + 1) (fuel + more + 3) (atKey (name.flatMap Scalar.doubled ++ '\'' :: '\n' :: body)) =
      (Scalar.folded false {} name).map (namedTokens · ts) := by
  rw [run_name]
  have rel : Option.Rel (fun u r => r.1 = u ∧ r.2.rest = '\n' :: body) (Scalar.folded false {} name)
      (Scalar.singleQuoted 7 7 {} (name.flatMap Scalar.doubled ++ '\'' :: '\n' :: body)) :=
    Scalar.singleQuoted_doubled (by simp) name 7 7 {}
  generalize Scalar.folded false {} name = x at rel ⊢
  generalize Scalar.singleQuoted 7 7 {} (name.flatMap Scalar.doubled ++ '\'' :: '\n' :: body) = y at rel ⊢
  cases rel with
  | none => rfl
  | some found =>
    obtain ⟨rfl, rest⟩ := found
    exact run_behindName unmarked hsize hts (Nat.succ_lt_succ hsize') more _ rest

/-- The notes before the name are passed over. -/
theorem run_sample (unmarked : ∀ c ∈ body, Lexer.isUnmarked c = true) (hsize : body.length < size)
    (hts : Lexer.run size fuel (atBody body) = some ts) (name : Text) {t : Text}
    (ht : t = Text.unlines noteLines ++ (atKey (name.flatMap Scalar.doubled ++ '\'' :: '\n' :: body)).cursor.rest)
    (more : Nat) (hmore : t.length + 1 = fuel + more + 3) :
    Lexer.run (t.length + 1) (t.length + 1) { cursor := { rest := t } } =
      (Scalar.folded false {} name).map (namedTokens · ts) := by
  have within : body.length + 1 < t.length := by
    rw [ht]
    simp [atKey]
    omega
  have notes := Lexer.run_notes (s := atKey (name.flatMap Scalar.doubled ++ '\'' :: '\n' :: body)) 0 noteLines
    noteLines_are_notes rfl (ht ▸ Nat.lt_succ_self t.length) (t.length + 1)
  rw [← ht] at notes
  refine notes.trans ?_
  rw [hmore]
  exact run_named unmarked hsize hts (by omega) more name

end Named

/-! ### Behind the name -/

/-- What follows the line of the name. -/
def bodyText : Text := Text.unlines bodyLines

def word (t : String) : Node := .scalar none .plain t.toList

def record (fields : List (String × Node)) : Node := .mapping none (fields.map fun f => (word f.1, f.2))

/-- The entries behind the name, as they are read. -/
def bodyNodes : List (Node × Node) := [
  (word "description", word "Sample command line tool"),
  (word "options", .sequence none [
    record [("names", word "-h --help"), ("description", word "Show this help message and exit")],
    record [("names", word "-V --version"), ("description", word "Print version information and exit")],
    record [("names", word "-v --verbose")]]),
  (word "subcommands", record [
    ("build", record [
      ("description", word "Build a target"),
      ("options", .sequence none [
        record [("names", word "-o --output"), ("type", word "file")],
        record [("names", word "-j --jobs"), ("type", word "int")],
        record [("names", word "-p --profile"), ("values", .sequence none [word "dev", word "release"])]])]),
    ("remote", record [
      ("description", word "Manage remotes"),
      ("subcommands", record [
        ("add", record [("options", .sequence none [record [("names", word "--url"), ("type", word "host")]])]),
        ("remove", record [("options", .sequence none [record [("names", word "-f --force")]])])])])])]

theorem body_is_read : (Lexer.run 700 200 (atBody bodyText)).bind laterEntries? = some bodyNodes := by decide +kernel

/-- How long the body is, and what it is written with. -/
theorem bodyText_written :
    bodyText.length = 631 ∧ (bodyText.all fun c => Lexer.isUnmarked c && isAllowed c) = true := by decide +kernel

theorem length_bodyText : bodyText.length = 631 := bodyText_written.1

theorem isUnmarked_bodyText (c : Char) (hc : c ∈ bodyText) : Lexer.isUnmarked c = true :=
  (Bool.and_eq_true_iff.mp (List.all_eq_true.mp bodyText_written.2 c hc)).1

theorem all_isAllowed_bodyText : bodyText.all isAllowed = true :=
  List.all_eq_true.mpr fun c hc => (Bool.and_eq_true_iff.mp (List.all_eq_true.mp bodyText_written.2 c hc)).2

/-! ### The whole sample -/

theorem sampleText_eq (name : Text) : sampleText name =
    Text.unlines noteLines ++ (atKey (name.flatMap Scalar.doubled ++ '\'' :: '\n' :: bodyText)).cursor.rest := by
  have same : quotedName name = '\'' :: (name.flatMap Scalar.doubled ++ ['\'']) := rfl
  rw [sampleText, Text.unlines, List.flatMap_append, List.flatMap_append, same, List.append_assoc]
  simp [atKey, Text.unlines, bodyText]

theorem tokens?_sampleText {ts : List Token} (hts : Lexer.run 700 200 (atBody bodyText) = some ts) (name : Text)
    (allowed : (sampleText name).all isAllowed = true) :
    tokens? (sampleText name) = (Scalar.folded false {} name).map (namedTokens · ts) := by
  have parts := sampleText_eq name
  have long : 640 ≤ (sampleText name).length := by
    rw [parts]
    simp [atKey, length_bodyText]
    omega
  obtain ⟨more, hmore⟩ := Nat.exists_eq_add_of_le (Nat.le_trans (by decide : 202 ≤ 640) long)
  rw [tokens?, if_pos allowed]
  have within : bodyText.length < 700 := by
    rw [length_bodyText]
    decide
  exact run_sample isUnmarked_bodyText within hts name parts more (by omega)

theorem all_isAllowed_sampleText (name : Text) : (sampleText name).all isAllowed = name.all isAllowed := by
  have quoted : (name.flatMap Scalar.doubled).all isAllowed = name.all isAllowed := Scalar.all_flatMap_doubled rfl name
  have notes : (Text.unlines noteLines).all isAllowed = true := by decide +kernel
  rw [sampleText_eq, List.all_append, notes]
  show ('n' :: 'a' :: 'm' :: 'e' :: ':' :: ' ' :: '\'' ::
    (name.flatMap Scalar.doubled ++ '\'' :: '\n' :: bodyText)).all isAllowed = _
  simp only [List.all_cons, List.all_append, quoted, all_isAllowed_bodyText]
  exact Bool.and_true _

theorem ofText?_sampleText (name : Text) (allowed : (sampleText name).all isAllowed = true) :
    Node.ofText? (sampleText name) = (Scalar.folded false {} name).map fun read =>
      .mapping none ((.scalar none .plain ['n', 'a', 'm', 'e'], .scalar none .singleQuoted read) :: bodyNodes) := by
  obtain ⟨ts, hts, hnodes⟩ := Option.bind_eq_some_iff.mp body_is_read
  rw [Node.ofText?, tokens?_sampleText hts name allowed]
  cases Scalar.folded false {} name with
  | none => rfl
  | some read => exact ofTree?_of_laterEntries hnodes

/-- The model that the sample describes. -/
def sampleModel (name : Text) : Command where
  name := name
  description := some "Sample command line tool".toList
  options := [
    (CommandOption.flag ["-h".toList, "--help".toList]).withDescription "Show this help message and exit".toList,
    (CommandOption.flag ["-V".toList, "--version".toList]).withDescription "Print version information and exit".toList,
    CommandOption.flag ["-v".toList, "--verbose".toList]]
  subcommands := [
    { name := "build".toList
      description := some "Build a target".toList
      options := [
        (CommandOption.argument ["-o".toList, "--output".toList]).withFiles,
        CommandOption.argument ["-j".toList, "--jobs".toList],
        (CommandOption.argument ["-p".toList, "--profile".toList]).withCandidates ["dev".toList, "release".toList]] },
    { name := "remote".toList
      description := some "Manage remotes".toList
      subcommands := [
        { name := "add".toList, options := [CommandOption.argument ["--url".toList]] },
        { name := "remove".toList, options := [CommandOption.flag ["-f".toList, "--force".toList]] }] }]

theorem ofSource_sample (name : Text) :
    Command.ofSource .malformedYaml (some (Node.mapping none
      ((.scalar none .plain ['n', 'a', 'm', 'e'], .scalar none .singleQuoted name) :: bodyNodes))) =
      .ok (sampleModel name) := by rfl

/-- The sample is read as the sample model of the name that the quoted one folds into. -/
theorem ofText_sampleText (name : Text) : Command.ofText .yaml (sampleText name) =
    match (if name.all isAllowed then Scalar.folded false {} name else none) with
    | some read => .ok (sampleModel read)
    | none => .error .malformedYaml := by
  cases allowed : name.all isAllowed with
  | false =>
    rw [Command.ofText, Node.ofText?, tokens?, all_isAllowed_sampleText, allowed]
    rfl
  | true =>
    rw [Command.ofText, ofText?_sampleText name ((all_isAllowed_sampleText name).trans allowed), if_pos rfl]
    cases Scalar.folded false {} name with
    | none => rfl
    | some read => exact ofSource_sample read

/-- A name that can stand in a text at all, and on one line, is read back. -/
theorem ofText_sampleText_of_line {name : Text} (allowed : name.all isAllowed = true)
    (unbroken : ∀ c ∈ name, isBreak c = false) : Command.ofText .yaml (sampleText name) = .ok (sampleModel name) := by
  have kept := (Scalar.folded_eq_self_iff name).mpr (Scalar.isKept_of_unbroken (.inl rfl) unbroken)
  rw [ofText_sampleText, if_pos allowed, kept]

/-- The sample names its command exactly if the name has no character that is forbidden and no break that is folded. Of
    other names something else is read, or the sample is malformed; nothing but the name can differ. -/
theorem sample_reads_back_iff (name : Text) :
    (Command.ofText .yaml (sampleText name) = .ok (sampleModel name) ↔
      name.all isAllowed = true ∧ Scalar.isKept .text name = true) ∧
    (Command.ofText .yaml (sampleText name) = .error .malformedYaml ∨
      ∃ read, Command.ofText .yaml (sampleText name) = .ok (sampleModel read)) := by
  rw [ofText_sampleText, ← Scalar.folded_eq_self_iff]
  cases allowed : name.all isAllowed with
  | false => exact ⟨iff_of_false nofun nofun, .inl rfl⟩
  | true =>
    rw [if_pos rfl]
    cases folded : Scalar.folded false {} name with
    | none => exact ⟨iff_of_false nofun nofun, .inl rfl⟩
    | some read =>
      refine ⟨⟨fun same => ⟨rfl, ?_⟩, fun kept => ?_⟩, .inr ⟨read, rfl⟩⟩
      · have names := congrArg Command.name (Except.ok.inj same)
        exact congrArg some names
      · rw [Option.some.inj kept.2]

/-- Such names are accepted: the one is read back as another name, and the other makes the sample malformed. -/
theorem accepted_names_are_not_read_back :
    (checkName "a\nb".toList = .ok () ∧
      Command.ofText .yaml (sampleText "a\nb".toList) = .ok (sampleModel "a b".toList) ∧
      (sampleModel "a b".toList).name ≠ "a\nb".toList) ∧
    (checkName "a\x1bb".toList = .ok () ∧
      Command.ofText .yaml (sampleText "a\x1bb".toList) = .error .malformedYaml) := by
  rw [ofText_sampleText, ofText_sampleText]
  exact ⟨⟨rfl, rfl, by decide⟩, rfl, rfl⟩

end ShellCompletion.Tool.Init

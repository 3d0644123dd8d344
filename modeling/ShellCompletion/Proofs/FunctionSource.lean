import ShellCompletion.Proofs.Shell.OneLine

/-! What the source of a completion function says. A reader knows the lines that every function has in common, and
    reads what stands between them by the rules of the shell: the name, the three word lists, and the arms of the
    `case` block if there is one. It reads back what the function's tables say, whatever the words are. -/

namespace ShellCompletion

namespace CompletionFunction

/-! ### Reading -/

/-- What a source says. -/
structure Reading where
  identifier : Text
  commands : List Text
  flags : List Text
  arguments : List Text
  /-- The arms of the `case` block, if there is one. -/
  arms : Option (List ArgumentOption)
deriving DecidableEq, Repr

/-- What the tables of a function say. -/
def reading (f : CompletionFunction) : Reading where
  identifier := f.identifier
  commands := f.subcommandNames
  flags := f.options.flags
  arguments := f.options.arguments
  arms := if f.options.argumentOptions = [] then none else some f.options.argumentOptions

/-- The lines between the name and the word lists. -/
def opening : List Text :=
  ["  # Get completion data".toList,
    "  local CURR_WORD=$\x7bCOMP_WORDS[COMP_CWORD]\x7d".toList,
    "  local PREV_WORD=$\x7bCOMP_WORDS[COMP_CWORD-1]\x7d".toList,
    "".toList]

/-- The lines that offer the word lists. -/
def closing : List Text :=
  ["".toList,
    "  mapfile -t COMPREPLY < <(compgen -W ".toList ++
      "\"$\x7bFLAG_OPTS\x7d $\x7bARG_OPTS\x7d $\x7bCOMMANDS\x7d\" -- \"$\x7bCURR_WORD\x7d\")".toList,
    "\x7d".toList]

/-- How an arm completes a value. -/
def readPolicy : List Text → Option Policy
  | [line] =>
    match Text.between "      mapfile -t COMPREPLY < <(compgen -W ".toList
        " -- \"$\x7bCURR_WORD\x7d\") # values".toList line with
    | some list => (Shell.readWordList list).map .oneOf
    | none => if line = "      COMPREPLY=() # free text".toList then some .freeText else none
  | lines =>
    if lines = ["      compopt -o filenames 2>/dev/null".toList,
        "      mapfile -t COMPREPLY < <(compgen -f -- \"$\x7bCURR_WORD\x7d\") # files".toList] then some .files
    else none

/-- One arm, up to the line that ends it. -/
def readArm : List Text → Option ArgumentOption
  | [] => none
  | pattern :: lines =>
    match (Shell.tokens pattern).bind Shell.alternatives with
    | some (names, []) =>
      ((Text.between [] ["      return 0".toList] lines).bind readPolicy).map (⟨names, ·⟩)
    | _ => none

/-- The line that ends an arm. -/
def armEnd : Text := "      ;;".toList

/-- The arms of the `case` block; without any line there is no block. -/
def readBlock : List Text → Option (Option (List ArgumentOption))
  | [] => some none
  | block => do
    let lines ← Text.between ["".toList, "  case \"$\x7bPREV_WORD\x7d\" in".toList] ["  esac".toList] block
    let arms ← Text.groupsFrom armEnd [] lines
    return some (← arms.mapM readArm)

/-- The word list that is assigned behind a fixed front. -/
def readAssignment (front line : Text) : Option (List Text) := (front.isPrefixOf? line).bind Shell.readWordList

/-- What the source of a function says, if every line of it can be read. -/
def read (source : Text) : Option Reading :=
  match (Text.lines source).dropWhile (·.head? == some '#') with
  | [] => none
  | header :: body => do
    let name ← Text.between "function ".toList "() \x7b".toList header
    let identifier ← Shell.readName name
    match ← Text.between opening closing body with
    | commands :: flags :: arguments :: block =>
      let commands ← readAssignment "  local COMMANDS=".toList commands
      let flags ← readAssignment "  local FLAG_OPTS=".toList flags
      let arguments ← readAssignment "  local ARG_OPTS=".toList arguments
      let arms ← readBlock block
      return { identifier, commands, flags, arguments, arms }
    | _ => none

end CompletionFunction

/-! ### What can be read -/

/-- What the aliases and the values of an option must be for its arm to say them. -/
structure ArgumentOption.Legible (o : ArgumentOption) : Prop where
  names_ne_nil : o.names ≠ []
  names : ∀ name ∈ o.names, IsWord name
  values : ∀ value ∈ o.policy.candidates.getD [], IsWord value

namespace CompletionFunction

/-- What the words of a function must be for its source to say them. -/
structure Legible (f : CompletionFunction) : Prop where
  identifier : Shell.IsName f.identifier
  commands : ∀ name ∈ f.subcommandNames, IsWord name
  flags : ∀ name ∈ f.options.flags, IsWord name
  arguments : ∀ name ∈ f.options.arguments, IsWord name
  options : ∀ o ∈ f.options.argumentOptions, o.Legible

/-- The function of a completable command can be read, if its stem can. -/
theorem legible_atNode {stem : Text} {node : Command.Node} (hstem : ∀ c ∈ stem, Shell.isInert c = true)
    (hpath : node.path ≠ []) (hc : node.command.Completable) : (atNode stem node).Legible where
  identifier := isName_identifierOf hstem hpath
  commands := by
    rw [subcommandNames_atNode]
    exact hc.subcommands
  flags := by
    intro name hname
    obtain ⟨o, ho, hname⟩ := List.mem_flatMap.mp hname
    exact (hc.options o (List.mem_filter.mp ho).1).names name hname
  arguments := by
    intro name hname
    obtain ⟨o, ho, hname⟩ := List.mem_flatMap.mp hname
    exact (hc.options o (List.mem_filter.mp ho).1).names name hname
  options := by
    intro a ha
    obtain ⟨o, ho, ha⟩ := List.mem_filterMap.mp ha
    obtain ⟨policy, hpolicy, rfl⟩ := Option.map_eq_some_iff.mp ha
    have hcompletable := hc.options o ho
    refine ⟨hcompletable.names_ne_nil, hcompletable.names, fun value hvalue => ?_⟩
    exact hcompletable.values value (by rwa [CommandOption.values, hpolicy, Option.bind_some])

/-! ### Arms -/

theorem readPolicy_policyLines {policy : Policy} (hvalues : ∀ value ∈ policy.candidates.getD [], IsWord value) :
    readPolicy (policyLines policy) = some policy := by
  cases policy with
  | oneOf values =>
    have hne : ∀ value ∈ values, value ≠ [] := fun value hvalue => (hvalues value hvalue).ne_nil
    simp only [policyLines, readPolicy, Text.between_append, Shell.readWordList_wordList hne, Option.map_some]
  | files => rfl
  | freeText => rfl

/-- The arm of an option without the line that ends it. -/
def armBody (o : ArgumentOption) : List Text :=
  ("    ".toList ++ Shell.casePattern o.names ++ ")".toList) :: (policyLines o.policy ++ ["      return 0".toList])

theorem armLines_eq (o : ArgumentOption) : armLines o = armBody o ++ [armEnd] :=
  congrArg (_ :: ·) (List.append_assoc (policyLines o.policy) ["      return 0".toList] [armEnd]).symm

theorem readArm_armBody {o : ArgumentOption} (ho : o.Legible) : readArm (armBody o) = some o := by
  have hpattern : (Shell.tokens ("    ".toList ++ Shell.casePattern o.names ++ ")".toList)).bind Shell.alternatives =
      some (o.names, []) := by
    rw [List.append_assoc, Shell.tokens_indent (List.all_eq_true.mp rfl), show ")".toList = [')'] from rfl,
      Shell.alternatives_casePattern [] ho.names_ne_nil]
    rfl
  have hbody := Text.between_append [] (policyLines o.policy) ["      return 0".toList]
  rw [List.nil_append] at hbody
  rw [armBody, readArm, hpattern]
  show ((Text.between [] ["      return 0".toList] _).bind readPolicy).map _ = _
  rw [hbody, Option.bind_some, readPolicy_policyLines ho.values, Option.map_some]

/-- The other lines of an arm go on differently where the indentation of its last line ends. -/
theorem armEnd_notMem_armBody {o : ArgumentOption} (ho : o.Legible) : armEnd ∉ armBody o := by
  have pattern : armEnd ≠ "    ".toList ++ Shell.casePattern o.names ++ ")".toList := by
    obtain ⟨t, ht⟩ := Shell.casePattern_eq_cons ho.names_ne_nil
    rw [ht]
    intro h
    cases congrArg (·[4]?) h
  have policy : armEnd ∉ policyLines o.policy := by
    cases o.policy with
    | oneOf values =>
      intro h
      cases congrArg (·[6]?) (List.mem_singleton.mp h)
    | files => decide
    | freeText => decide
  have last : armEnd ∉ ["      return 0".toList] := by decide
  simp only [armBody, List.mem_cons, List.mem_append, not_or]
  exact ⟨pattern, policy, fun h => last (List.mem_singleton.mpr h), List.not_mem_nil⟩

/-- The `case` block says the options with values; without any there is none. -/
theorem readBlock_caseLines {options : List ArgumentOption} (hoptions : ∀ o ∈ options, o.Legible) :
    readBlock (caseLines options) = some (if options = [] then none else some options) := by
  by_cases hnil : options = []
  · subst hnil
    rfl
  · have arms : Text.groupsFrom armEnd [] (options.flatMap armLines) = some (options.map armBody) :=
      Text.groupsFrom_flatMap armLines_eq fun o ho => armEnd_notMem_armBody (hoptions o ho)
    have readable : (options.map armBody).mapM readArm = some options :=
      Text.mapM_map_eq_some fun o ho => readArm_armBody (hoptions o ho)
    have block := Text.between_append ["".toList, "  case \"$\x7bPREV_WORD\x7d\" in".toList]
      (options.flatMap armLines) ["  esac".toList]
    rw [caseLines, if_neg (by simpa using hnil), if_neg hnil]
    show (Text.between _ _ _ >>= fun lines => Text.groupsFrom armEnd [] lines >>= fun arms =>
      arms.mapM readArm >>= fun arms => some (some arms)) = _
    rw [block, Option.bind_eq_bind, Option.bind_some, arms]
    show ((options.map armBody).mapM readArm).bind _ = _
    rw [readable]
    rfl

/-! ### Lines -/

theorem newline_notMem_policyLines {policy : Policy}
    (hvalues : ∀ value ∈ policy.candidates.getD [], IsWord value) : ∀ l ∈ policyLines policy, '\n' ∉ l := by
  cases policy with
  | oneOf values =>
    have hlist : '\n' ∉ Shell.wordList values :=
      Shell.newline_notMem_wordList fun value hvalue => (hvalues value hvalue).newline_notMem
    simp [policyLines, hlist]
  | files => decide
  | freeText => decide

theorem newline_notMem_armLines {o : ArgumentOption} (ho : o.Legible) : ∀ l ∈ armLines o, '\n' ∉ l := by
  have hpattern : '\n' ∉ Shell.casePattern o.names :=
    Shell.newline_notMem_casePattern fun name hname => (ho.names name hname).newline_notMem
  unfold armLines
  rw [List.forall_mem_append, List.forall_mem_append, List.forall_mem_singleton]
  exact ⟨⟨by simp [hpattern], newline_notMem_policyLines ho.values⟩, by decide⟩

theorem newline_notMem_caseLines {options : List ArgumentOption} (hoptions : ∀ o ∈ options, o.Legible) :
    ∀ l ∈ caseLines options, '\n' ∉ l := by
  unfold caseLines
  split
  · nofun
  · rw [List.forall_mem_append, List.forall_mem_append, List.forall_mem_flatMap]
    exact ⟨⟨by decide, fun o ho => newline_notMem_armLines (hoptions o ho)⟩, by decide⟩

theorem newline_notMem_lines {f : CompletionFunction} (hf : f.Legible) : ∀ l ∈ f.lines, '\n' ∉ l := by
  have words : ∀ {names : List Text}, (∀ name ∈ names, IsWord name) → '\n' ∉ Shell.wordList names := fun h =>
    Shell.newline_notMem_wordList fun name hname => (h name hname).newline_notMem
  unfold lines
  simp only [List.forall_mem_append]
  refine ⟨⟨⟨⟨?heading, ?description⟩, ?body⟩, ?block⟩, ?last⟩
  case heading =>
    have := Shell.newline_notMem_comment f.displayPath
    simp [this]
  case description =>
    intro l hl
    obtain ⟨d, -, rfl⟩ := List.mem_map.mp hl
    have := Shell.newline_notMem_comment d
    simp [this]
  case body => simp [hf.identifier.newline_notMem, words hf.commands, words hf.flags, words hf.arguments]
  case block => exact newline_notMem_caseLines hf.options
  case last => decide

/-! ### Sources -/

theorem readAssignment_append (front : Text) {words : List Text} (hwords : ∀ word ∈ words, IsWord word) :
    readAssignment front (front ++ Shell.wordList words) = some words := by
  have hfront : front.isPrefixOf? (front ++ Shell.wordList words) = some (Shell.wordList words) := by simp
  rw [readAssignment, hfront, Option.bind_some]
  exact Shell.readWordList_wordList fun word hword => (hwords word hword).ne_nil

/-- The lines of a function behind the comments. -/
theorem dropWhile_lines (f : CompletionFunction) :
    f.lines.dropWhile (·.head? == some '#') =
      ("function ".toList ++ f.identifier ++ "() \x7b".toList) ::
        (opening ++
          ("  local COMMANDS=".toList ++ Shell.wordList f.subcommandNames) ::
          ("  local FLAG_OPTS=".toList ++ Shell.wordList f.options.flags) ::
          ("  local ARG_OPTS=".toList ++ Shell.wordList f.options.arguments) ::
          caseLines f.options.argumentOptions ++ closing) := by
  have comments : ∀ l ∈ ("# Generates completions for the options and subcommands of the `".toList ++
      Shell.comment f.displayPath ++ "` command.".toList) ::
        f.description.toList.map (fun d => "# ".toList ++ Shell.comment d), (l.head? == some '#') = true := by
    rw [List.forall_mem_cons]
    refine ⟨rfl, fun l hl => ?_⟩
    obtain ⟨d, -, rfl⟩ := List.mem_map.mp hl
    rfl
  unfold lines
  simp only [List.append_assoc]
  exact List.dropWhile_append_of_pos comments

/-- The source of a function says what its tables say. -/
theorem read_source_of_legible {f : CompletionFunction} (hf : f.Legible) : read f.source = some f.reading := by
  unfold read
  rw [source, Text.lines_unlines (newline_notMem_lines hf), dropWhile_lines]
  simp only [Text.between_append, Shell.readName_eq hf.identifier, readAssignment_append _ hf.commands,
    readAssignment_append _ hf.flags, readAssignment_append _ hf.arguments, readBlock_caseLines hf.options,
    Option.bind_eq_bind, Option.bind_some]
  rfl

theorem legible_of_mem {stem : Text} {root : Command} {functions : List CompletionFunction}
    (hstem : ∀ c ∈ stem, Shell.isInert c = true) (accepted : (ofTree stem root).result = .ok functions) :
    ∀ f ∈ functions, f.Legible := by
  obtain ⟨hcommands, rfl⟩ := ofTree_eq_ok.mp accepted
  intro f hf
  obtain ⟨node, hnode, rfl⟩ := List.mem_map.mp hf
  obtain ⟨more, hpath⟩ := Command.path_of_mem_nodes hnode
  exact legible_atNode hstem (by simp [hpath]) (hcommands node hnode)

/-- The sources of all functions of a tree say what the functions' tables say, behind any stem that can stand bare:
    quotes, blanks and whatever else is active in the shell do not change what is read. -/
theorem read_source {stem : Text} {root : Command} {functions : List CompletionFunction}
    (hstem : ∀ c ∈ stem, Shell.isInert c = true) (accepted : (ofTree stem root).result = .ok functions) :
    ∀ f ∈ functions, read f.source = some f.reading :=
  fun f hf => read_source_of_legible (legible_of_mem hstem accepted f hf)

-- A stem that is active where it stands bare is not read.
example : (ofTree "$".toList { name := "a".toList }).result.map (·.map (read ·.source)) = .ok [none] := rfl

/-- The functions of the sample are read back, the one for `$` and `a|b` among them. -/
theorem read_source_sample :
    ∃ functions, (ofTree defaultStem Script.sample).result = .ok functions ∧
      ∃ f ∈ functions, read f.source = some {
        identifier := "_tabsmith_4_demo_7_it_27_s".toList
        commands := ["it's".toList]
        flags := []
        arguments := ["-m".toList, "$".toList]
        arms := some [⟨["-m".toList, "$".toList], .oneOf ["a|b".toList, "#".toList]⟩] } := by
  have accepted : (ofTree defaultStem Script.sample).result = .ok (Script.functionsOf Script.sample) := rfl
  have stem : ∀ c ∈ defaultStem, Shell.isInert c = true := List.all_eq_true.mp rfl
  exact ⟨_, accepted, _, List.mem_cons_of_mem _ List.mem_cons_self,
    read_source stem accepted _ (List.mem_cons_of_mem _ List.mem_cons_self)⟩

end CompletionFunction
end ShellCompletion

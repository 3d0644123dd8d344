import ShellCompletion.Proofs.Shell.OneLine

/-! What the source of an entry point and its registration say. The outer `case` block has an arm for each transition
    and the inner one an arm for each target; names of functions stand bare in them and names of subcommands quoted,
    so whatever a subcommand is called, the arms read back as the table. The registration is a line of words. -/

namespace ShellCompletion

namespace EntryFunction

/-! ### Reading -/

/-- What a source says. -/
structure Reading where
  identifier : Text
  root : Text
  transitions : List Transition
deriving DecidableEq, Repr

/-- What the tables of an entry point say. -/
def reading (e : EntryFunction) : Reading := ⟨e.identifier, e.root, e.transitions⟩

/-- The lines between the start and the outer arms. -/
def opening : List Text :=
  ["  local i".toList,
    "  for (( i = 1; i < COMP_CWORD; i++ )); do".toList,
    "    case $\x7bnode\x7d in".toList]

/-- The lines behind the outer arms. -/
def closing : List Text :=
  ["      *)".toList,
    "        break".toList,
    "        ;;".toList,
    "    esac".toList,
    "  done".toList,
    "".toList,
    "  \"$\x7bnode\x7d\"".toList,
    "\x7d".toList]

/-- An inner arm: one word leads to the function that is assigned. -/
def readTarget (line : Text) : Option SubcommandLink :=
  match (Shell.tokens line).bind Shell.alternatives with
  | some ([name], [.word ⟨assignment, true⟩, .operator ';', .operator ';']) =>
    ("node=".toList.isPrefixOf? assignment).map (⟨name, ·⟩)
  | _ => none

/-- An outer arm without the line that ends it: the inner block, whose last arm is that of any other word. -/
def readTransition : List Text → Option Transition
  | [] => none
  | pattern :: lines =>
    match (Shell.tokens pattern).bind Shell.alternatives with
    | some ([source], []) =>
      ((Text.between ["        case \"$\x7bCOMP_WORDS[i]\x7d\" in".toList]
        ["          *) break ;;".toList, "        esac".toList] lines).bind (·.mapM readTarget)).map (⟨source, ·⟩)
    | _ => none

/-- The line that ends an outer arm. -/
def armEnd : Text := "        ;;".toList

/-- What the source of an entry point says, if every line of it can be read. -/
def read (source : Text) : Option Reading :=
  match (Text.lines source).dropWhile (·.head? == some '#') with
  | header :: start :: body => do
    let name ← Text.between "function ".toList "() \x7b".toList header
    let identifier ← Shell.readName name
    let node ← "  local node=".toList.isPrefixOf? start
    let root ← Shell.readName node
    let arms ← Text.between opening closing body
    let groups ← Text.groupsFrom armEnd [] arms
    let transitions ← groups.mapM readTransition
    return { identifier, root, transitions }
  | _ => none

end EntryFunction

/-! ### What can be read -/

/-- What the names of a transition must be for its arm to say them. -/
structure Transition.Legible (t : Transition) : Prop where
  source : Shell.IsName t.source
  targets : ∀ link ∈ t.targets, IsWord link.name ∧ Shell.IsName link.identifier

namespace EntryFunction

/-- What the names of an entry point must be for its source to say them. -/
structure Legible (e : EntryFunction) : Prop where
  identifier : Shell.IsName e.identifier
  root : Shell.IsName e.root
  transitions : ∀ t ∈ e.transitions, t.Legible

/-- The entry point of a model whose commands are completable can be read. -/
theorem legible_entryOf {model : Command} {aliases : List Text}
    (hcommands : ∀ node ∈ model.nodes, node.command.Completable) : (Script.entryOf model aliases).Legible := by
  have default : ∀ c ∈ CompletionFunction.defaultStem, Shell.isInert c = true := List.all_eq_true.mp rfl
  have path_ne_nil : ∀ node ∈ model.nodes, node.path ≠ [] := fun node hnode => by
    obtain ⟨more, hpath⟩ := Command.path_of_mem_nodes hnode
    simp [hpath]
  refine ⟨?identifier, ?root, ?transitions⟩
  case identifier => exact CompletionFunction.isName_identifierOf (List.all_eq_true.mp rfl) (List.cons_ne_nil _ _)
  case root => exact CompletionFunction.isName_identifierOf default (List.cons_ne_nil _ _)
  case transitions =>
    intro t ht
    obtain ⟨f, hf, rfl⟩ := List.mem_map.mp ht
    obtain ⟨node, hnode, rfl⟩ := List.mem_map.mp (List.mem_filter.mp hf).1
    refine ⟨CompletionFunction.isName_identifierOf default (path_ne_nil node hnode), fun link hlink => ?_⟩
    obtain ⟨name, hname, rfl⟩ := List.mem_map.mp hlink
    exact ⟨(hcommands node hnode).subcommands name hname,
      CompletionFunction.isName_identifierOf default (by simp)⟩

/-! ### Arms -/

/-- The name is quoted, so it says itself, and the assignment behind it stands bare. -/
theorem readTarget_targetLine {link : SubcommandLink} (hidentifier : Shell.IsName link.identifier) :
    readTarget (targetLine link) = some link := by
  have inert : ∀ c ∈ "node=".toList ++ link.identifier, Shell.isInert c = true :=
    List.forall_mem_append.mpr ⟨List.all_eq_true.mp rfl, hidentifier.inert⟩
  have assignment : Shell.tokens (" node=".toList ++ link.identifier ++ " ;;".toList) =
      some [.word ⟨"node=".toList ++ link.identifier, true⟩, .operator ';', .operator ';'] := by
    have front : " node=".toList = ' ' :: "node=".toList := rfl
    have back : " ;;".toList = ' ' :: ";;".toList := rfl
    rw [front, back, List.cons_append, List.cons_append, Shell.tokens_blank rfl, Shell.tokens,
      Shell.tokensFrom_plain (by simp) inert, Shell.tokensFrom_blank rfl]
    rfl
  have arm : (Shell.tokens (targetLine link)).bind Shell.alternatives =
      some ([link.name], [.word ⟨"node=".toList ++ link.identifier, true⟩, .operator ';', .operator ';']) := by
    have line : targetLine link = "          ".toList ++ (Shell.casePattern [link.name] ++
        ')' :: (" node=".toList ++ link.identifier ++ " ;;".toList)) :=
      calc targetLine link = "          ".toList ++ Shell.casePattern [link.name] ++ (')' :: " node=".toList) ++
            link.identifier ++ " ;;".toList := rfl
        _ = _ := by simp only [List.append_assoc, List.cons_append]
    rw [line, Shell.tokens_indent (List.all_eq_true.mp rfl), Shell.alternatives_casePattern _ (List.cons_ne_nil _ _), assignment]
    rfl
  have target : "node=".toList.isPrefixOf? ("node=".toList ++ link.identifier) = some link.identifier := by simp
  rw [readTarget, arm]
  show ("node=".toList.isPrefixOf? ("node=".toList ++ link.identifier)).map _ = _
  rw [target]
  rfl

/-- The arm of a transition without the line that ends it. -/
def armBody (t : Transition) : List Text :=
  ("      ".toList ++ t.source ++ ")".toList) ::
    (["        case \"$\x7bCOMP_WORDS[i]\x7d\" in".toList] ++ t.targets.map targetLine ++
      ["          *) break ;;".toList, "        esac".toList])

theorem transitionLines_eq (t : Transition) : transitionLines t = armBody t ++ [armEnd] :=
  congrArg (fun ls => _ :: _ :: ls) (List.append_assoc (t.targets.map targetLine)
    ["          *) break ;;".toList, "        esac".toList] [armEnd]).symm

theorem readTransition_armBody {t : Transition} (ht : t.Legible) : readTransition (armBody t) = some t := by
  have pattern : (Shell.tokens ("      ".toList ++ t.source ++ ")".toList)).bind Shell.alternatives =
      some ([t.source], []) := by
    have bare : (⟨t.source, true⟩ : Shell.Word).isReserved = false :=
      Shell.not_isReserved_of_underscore ht.source.underscore_mem
    rw [List.append_assoc, Shell.tokens_indent (List.all_eq_true.mp rfl), Shell.tokens, show ")".toList = [')'] from rfl,
      Shell.tokensFrom_plain ht.source.ne_nil ht.source.inert, Shell.tokensFrom_operator rfl]
    simp [Shell.tokens, Shell.tokensFrom, Shell.alternatives, bare]
  have inner := Text.between_append ["        case \"$\x7bCOMP_WORDS[i]\x7d\" in".toList] (t.targets.map targetLine)
    ["          *) break ;;".toList, "        esac".toList]
  have targets : (t.targets.map targetLine).mapM readTarget = some t.targets :=
    Text.mapM_map_eq_some fun link hlink => readTarget_targetLine (ht.targets link hlink).2
  rw [armBody, readTransition, pattern]
  show ((Text.between _ _ _).bind (·.mapM readTarget)).map _ = _
  rw [inner, Option.bind_some, targets]
  rfl

/-- The other lines of an arm differ from its last line where that one is at its end, or before. -/
theorem armEnd_notMem_armBody {t : Transition} (ht : t.Legible) : armEnd ∉ armBody t := by
  have pattern : armEnd ≠ "      ".toList ++ t.source ++ ")".toList := by
    -- Behind six spaces `c` would be a space, and no name has one.
    obtain ⟨c, source, hsource⟩ := List.exists_cons_of_ne_nil ht.source.ne_nil
    have hc : Shell.isInert c = true := ht.source.inert c (by simp [hsource])
    intro h
    rw [hsource] at h
    obtain rfl : ' ' = c := Option.some.inj (congrArg (·[6]?) h)
    exact absurd hc (by decide)
  have target : ¬∃ link ∈ t.targets, targetLine link = armEnd := by
    rintro ⟨link, -, h⟩
    cases congrArg (·[8]?) h
  have fixed : armEnd ∉ ["        case \"$\x7bCOMP_WORDS[i]\x7d\" in".toList, "          *) break ;;".toList,
      "        esac".toList] := by decide
  simp only [armBody, List.mem_cons, List.mem_append, List.mem_map, not_or, List.not_mem_nil, not_false_eq_true,
    and_true] at fixed ⊢
  exact ⟨pattern, ⟨fixed.1, target⟩, fixed.2⟩

/-! ### Lines -/

theorem newline_notMem_targetLine {link : SubcommandLink} (hname : IsWord link.name)
    (hidentifier : Shell.IsName link.identifier) : '\n' ∉ targetLine link := by
  have hpattern : '\n' ∉ Shell.casePattern [link.name] :=
    Shell.newline_notMem_casePattern fun name h => List.mem_singleton.mp h ▸ hname.newline_notMem
  unfold targetLine
  simp only [List.mem_append, not_or]
  exact ⟨⟨⟨⟨by decide, hpattern⟩, by decide⟩, hidentifier.newline_notMem⟩, by decide⟩

theorem newline_notMem_transitionLines {t : Transition} (ht : t.Legible) : ∀ l ∈ transitionLines t, '\n' ∉ l := by
  unfold transitionLines
  rw [List.forall_mem_append, List.forall_mem_append, List.forall_mem_cons, List.forall_mem_singleton,
    List.forall_mem_map]
  refine ⟨⟨⟨?_, by decide⟩, fun link hlink => ?_⟩, by decide⟩
  · simp [ht.source.newline_notMem]
  · exact newline_notMem_targetLine (ht.targets link hlink).1 (ht.targets link hlink).2

theorem newline_notMem_lines {e : EntryFunction} (he : e.Legible) : ∀ l ∈ e.lines, '\n' ∉ l := by
  unfold lines
  rw [List.forall_mem_append, List.forall_mem_append, List.forall_mem_flatMap]
  refine ⟨⟨?_, fun t ht => newline_notMem_transitionLines (he.transitions t ht)⟩, by decide⟩
  simp [he.identifier.newline_notMem, he.root.newline_notMem]

/-- The lines of an entry point behind the comments. -/
theorem dropWhile_lines (e : EntryFunction) :
    e.lines.dropWhile (·.head? == some '#') =
      ("function ".toList ++ e.identifier ++ "() \x7b".toList) :: ("  local node=".toList ++ e.root) ::
        (opening ++ e.transitions.flatMap transitionLines ++ closing) := by
  have comments : ∀ l ∈ ["# Bash completion entry point function.".toList,
      "# ".toList ++ e.identifier ++ " walks the subcommands typed so far and delegates to the".toList,
      "# completion function of the deepest subcommand reached.".toList], (l.head? == some '#') = true := by
    simp
  exact List.dropWhile_append_of_pos comments

/-- The source of an entry point says what its tables say. -/
theorem read_source_of_legible {e : EntryFunction} (he : e.Legible) : read e.source = some e.reading := by
  have start : "  local node=".toList.isPrefixOf? ("  local node=".toList ++ e.root) = some e.root := by simp
  have arms : Text.groupsFrom armEnd [] (e.transitions.flatMap transitionLines) = some (e.transitions.map armBody) :=
    Text.groupsFrom_flatMap transitionLines_eq fun t ht => armEnd_notMem_armBody (he.transitions t ht)
  have transitions : (e.transitions.map armBody).mapM readTransition = some e.transitions :=
    Text.mapM_map_eq_some fun t ht => readTransition_armBody (he.transitions t ht)
  unfold read
  rw [source, Text.lines_unlines (newline_notMem_lines he), dropWhile_lines]
  simp only [Text.between_append, Shell.readName_eq he.identifier, Shell.readName_eq he.root, start, arms,
    transitions, Option.bind_eq_bind, Option.bind_some]
  rfl

end EntryFunction
end ShellCompletion

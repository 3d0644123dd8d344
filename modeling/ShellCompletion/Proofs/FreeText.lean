import ShellCompletion.Proofs.Rejection
import ShellCompletion.Proofs.ScriptSource

/-! Free text stays in comments. Descriptions, what a flag says of a value that it does not take, and the banner are
    up to whoever writes them; two models that differ in nothing else are refused for the same reason, or their
    scripts have the same lines apart from the comments. -/

namespace ShellCompletion

/-! ### Models that are alike -/

/-- Options with the same aliases and the same completion of a value, if they take one. -/
structure CommandOption.Alike (o o' : CommandOption) : Prop where
  names : o.names = o'.names
  takesArgument : o.takesArgument = o'.takesArgument
  policy : o.policy = o'.policy

/-- Trees of one shape, with the same names and with options that are alike. -/
inductive Command.Alike : Command → Command → Prop
  | intro {name : Text} {description description' : Option Text} {options options' : List CommandOption}
      {subs subs' : List Command} (hoptions : List.Forall₂ CommandOption.Alike options options')
      (hsubs : List.Forall₂ Command.Alike subs subs') :
      Command.Alike ⟨name, description, options, subs⟩ ⟨name, description', options', subs'⟩

namespace Command
variable {c d : Command}

theorem Alike.name (h : c.Alike d) : c.name = d.name := by
  cases h
  rfl

theorem Alike.options (h : c.Alike d) : List.Forall₂ CommandOption.Alike c.options d.options := by
  cases h
  assumption

theorem Alike.subcommandNames (h : c.Alike d) : c.subcommandNames = d.subcommandNames := by
  cases h with
  | intro _ hsubs => exact map_eq_of_forall₂ (fun _ _ hsub => hsub.name) hsubs

/-- Nodes at the same place with commands that are alike. -/
structure Node.Alike (n m : Node) : Prop where
  path : n.path = m.path
  command : n.command.Alike m.command

mutual

theorem Alike.nodesBelow : ∀ {c d : Command} {above : List Text}, c.Alike d →
    List.Forall₂ Node.Alike (c.nodesBelow above) (d.nodesBelow above)
  | ⟨_, _, _, _⟩, ⟨_, _, _, _⟩, _, .intro hoptions hsubs => by
    unfold Command.nodesBelow
    exact .cons ⟨rfl, .intro hoptions hsubs⟩ (nodesBelowAll_alike hsubs)

theorem nodesBelowAll_alike : ∀ {cs ds : List Command} {above : List Text}, List.Forall₂ Command.Alike cs ds →
    List.Forall₂ Node.Alike (nodesBelowAll above cs) (nodesBelowAll above ds)
  | [], [], _, _ => .nil
  | _ :: _, _ :: _, _, .cons hc hcs => by
    unfold nodesBelowAll
    exact List.rel_append hc.nodesBelow (nodesBelowAll_alike hcs)

end

/-- Trees that are alike have nodes that are alike, in the same order. -/
theorem Alike.nodes (h : c.Alike d) : List.Forall₂ Node.Alike c.nodes d.nodes := h.nodesBelow

end Command

/-! ### Defects -/

section Defects
variable {options options' earlier earlier' : List CommandOption}

theorem CommandOption.Alike.values {o o' : CommandOption} (h : o.Alike o') : o.values = o'.values := by
  rw [CommandOption.values, CommandOption.values, h.policy]

theorem OptionTable.defects_alike {command : Text} {seen : List Text} {o o' : CommandOption} (h : o.Alike o') :
    (rules command).defects seen o = (rules command).defects seen o' := by
  simp only [OptionRules.defects, rules, h.names, h.values]

theorem OptionTable.allDefects_alike {command : Text} (hearlier : List.Forall₂ CommandOption.Alike earlier earlier')
    (h : List.Forall₂ CommandOption.Alike options options') :
    (rules command).allDefects earlier options = (rules command).allDefects earlier' options' := by
  induction h generalizing earlier earlier' with
  | nil => rfl
  | cons ho _ ih =>
    have names : earlier.flatMap (·.names) = earlier'.flatMap (·.names) :=
      flatMap_eq_of_forall₂ (fun _ _ ho => ho.names) hearlier
    rw [OptionRules.allDefects_cons, OptionRules.allDefects_cons, names, defects_alike ho, ih (.cons ho hearlier)]

/-- Free text has no defects. -/
theorem Command.Alike.defects {c d : Command} (h : c.Alike d) : c.defects = d.defects := by
  rw [Command.defects, Command.defects, h.name, h.subcommandNames, OptionTable.allDefects_alike .nil h.options]

theorem Command.Node.Alike.defects {n m : Command.Node} (h : n.Alike m) : n.defects = m.defects := by
  rw [Command.Node.defects, Command.Node.defects, h.path, h.command.defects]

end Defects

/-! ### Functions -/

theorem OptionTable.ofOptions_alike {options options' : List CommandOption}
    (h : List.Forall₂ CommandOption.Alike options options') : ofOptions options = ofOptions options' := by
  induction h with
  | nil => rfl
  | @cons o o' _ _ ho _ ih =>
    simp only [ofOptions, OptionTable.mk.injEq] at ih ⊢
    obtain ⟨hflags, harguments, hoptions⟩ := ih
    rw [List.filter_cons, List.filter_cons, List.filter_cons, List.filter_cons, List.filterMap_cons,
      List.filterMap_cons, ho.takesArgument, ho.policy, ho.names, hoptions]
    cases o'.takesArgument <;> simp [ho.names, hflags, harguments]

namespace CompletionFunction

/-- The function of a command without a description. -/
def undescribed (f : CompletionFunction) : CompletionFunction := { f with description := none }

theorem undescribed_atNode {stem : Text} {n m : Command.Node} (h : n.Alike m) :
    (atNode stem n).undescribed = (atNode stem m).undescribed := by
  simp only [undescribed, atNode, h.path, h.command.subcommandNames, OptionTable.ofOptions_alike h.command.options]

end CompletionFunction

namespace Script

theorem functionsOf_alike {model model' : Command} (h : model.Alike model') :
    (functionsOf model).map (·.undescribed) = (functionsOf model').map (·.undescribed) := by
  rw [functionsOf, functionsOf, List.map_map, List.map_map]
  exact map_eq_of_forall₂ (fun _ _ hnode => CompletionFunction.undescribed_atNode hnode) h.nodes

/-- An entry point knows nothing of descriptions. -/
theorem entryOf_alike {model model' : Command} {kept : List Text} (h : model.Alike model') :
    entryOf model kept = entryOf model' kept := by
  have transitions : ∀ functions : List CompletionFunction,
      (functions.filter (!·.subcommands.isEmpty)).map (fun f => Transition.mk f.identifier f.subcommands) =
        ((functions.map (·.undescribed)).filter (!·.subcommands.isEmpty)).map
          fun f => Transition.mk f.identifier f.subcommands := fun functions => by
    rw [List.filter_map, List.map_map]
    rfl
  rw [entryOf, entryOf, transitions (functionsOf model), transitions (functionsOf model'), functionsOf_alike h, h.name]

/-! ### Executable lines -/

/-- Is a line more than a comment? -/
def isExecutable (line : Text) : Bool := line.head? != some '#'

/-- The lines of a script that are not comments, in order. -/
def executableLines (script : Text) : List Text := (Text.lines script).filter isExecutable

theorem filter_isExecutable_dropWhile (ls : List Text) :
    (ls.dropWhile (·.head? == some '#')).filter isExecutable = ls.filter isExecutable := by
  induction ls with
  | nil => rfl
  | cons l ls ih =>
    by_cases hl : (l.head? == some '#') = true
    · have comment : isExecutable l = false := by simpa [isExecutable] using hl
      rw [List.dropWhile_cons, if_pos hl, List.filter_cons_of_neg (by simp [comment]), ih]
    · rw [List.dropWhile_cons, if_neg hl]

theorem filter_isExecutable_headerLines (banner command : Text) :
    (headerLines banner command).filter isExecutable = [[], "shopt -s progcomp".toList] := rfl

/-- A description makes no executable line. -/
theorem filter_isExecutable_lines (f : CompletionFunction) :
    f.lines.filter isExecutable = f.undescribed.lines.filter isExecutable := by
  rw [← filter_isExecutable_dropWhile, ← filter_isExecutable_dropWhile f.undescribed.lines,
    CompletionFunction.dropWhile_lines, CompletionFunction.dropWhile_lines]
  rfl

variable {aliases : List Text} {model model' : Command} {banner banner' script script' : Text}
  {functions functions' : List CompletionFunction} {entry entry' : EntryFunction}

/-- The executable lines of a generated script come from its tables. -/
theorem executableLines_script (generated : GeneratedFrom aliases model banner script functions entry) :
    executableLines script =
      [[], "shopt -s progcomp".toList] ++
        (functions.map (·.undescribed)).flatMap (fun f => [] :: f.lines.filter isExecutable) ++
        [] :: entry.lines.filter isExecutable ++ [] :: entry.registrationLines.filter isExecutable := by
  have each : functions.flatMap (fun f => ([] :: f.lines).filter isExecutable) =
      (functions.map (·.undescribed)).flatMap fun f => [] :: f.lines.filter isExecutable := by
    rw [List.flatMap_map]
    refine congrArg functions.flatMap (funext fun f => ?_)
    rw [List.filter_cons_of_pos rfl, filter_isExecutable_lines]
  rw [executableLines, lines_script generated, lines, List.filter_append, List.filter_append, List.filter_append,
    filter_isExecutable_headerLines, List.filter_flatMap, each, List.filter_cons_of_pos rfl,
    List.filter_cons_of_pos rfl]

theorem executableLines_alike (generated : GeneratedFrom aliases model banner script functions entry)
    (generated' : GeneratedFrom aliases model' banner' script' functions' entry') (h : model.Alike model') :
    executableLines script = executableLines script' := by
  obtain ⟨-, -, hfunctions, hentry, -⟩ := generatedFrom_iff.mp generated
  obtain ⟨-, -, hfunctions', hentry', -⟩ := generatedFrom_iff.mp generated'
  rw [executableLines_script generated, executableLines_script generated', hfunctions, hfunctions', hentry, hentry',
    functionsOf_alike h, entryOf_alike h]

/-- Nothing but what two models that are alike have in common decides whether they have scripts. -/
theorem generate_alike (h : model.Alike model') :
    (∃ f, (generate aliases model banner).result = .error f ∧ (generate aliases model' banner').result = .error f) ∨
      ∃ script script', (generate aliases model banner).result = .ok script ∧
        (generate aliases model' banner').result = .ok script' := by
  have defects : model.nodes.flatMap (·.defects) = model'.nodes.flatMap (·.defects) :=
    flatMap_eq_of_forall₂ (fun _ _ hnode => hnode.defects) h.nodes
  rw [generate_eq_report, generate_eq_report, defects]
  cases report (aliasDefects aliases ++ model'.nodes.flatMap (·.defects)) with
  | error f => exact Or.inl ⟨f, rfl, rfl⟩
  | ok _ => exact Or.inr ⟨_, _, rfl, rfl⟩

/-- Descriptions, banners and what flags say of values do not reach the executable lines: models that differ in
    nothing else fail alike, or have scripts whose lines are the same apart from the comments. -/
theorem free_text_stays_in_comments (h : model.Alike model') (aliases : List Text) (banner banner' : Text) :
    (∃ f, (generate aliases model banner).result = .error f ∧ (generate aliases model' banner').result = .error f) ∨
      ∃ script script', (generate aliases model banner).result = .ok script ∧
        (generate aliases model' banner').result = .ok script' ∧ executableLines script = executableLines script' := by
  rcases generate_alike h with failed | ⟨script, script', accepted, accepted'⟩
  · exact Or.inl failed
  · obtain ⟨_, _, generated⟩ := generate_eq_ok_iff_generatedFrom.mp accepted
    obtain ⟨_, _, generated'⟩ := generate_eq_ok_iff_generatedFrom.mp accepted'
    exact Or.inr ⟨script, script', accepted, accepted', executableLines_alike generated generated' h⟩

/-- The sample with other texts: commands in descriptions, and flags and files that say more than is used. -/
def annotated : Command where
  name := "demo".toList
  description := some "x\nrm -r .\r# y".toList
  options := [{ CommandOption.flag ["-h".toList, "--help".toList] with
    candidates := some [" ; rm".toList], fileValued := true, description := some "\n$(rm)".toList }]
  subcommands := [
    { name := "it's".toList
      options := [((CommandOption.argument ["-m".toList, "$".toList]).withCandidates
        ["a|b".toList, "#".toList]).withFiles]
      subcommands := [{ name := "it's".toList, description := some [] }] },
    { name := "esac".toList
      options := [((CommandOption.argument ["in".toList]).withFiles).withDescription "esac\n".toList] }]

theorem sample_alike_annotated : sample.Alike annotated :=
  .intro (.cons ⟨rfl, rfl, rfl⟩ .nil)
    (.cons (.intro (.cons ⟨rfl, rfl, rfl⟩ .nil) (.cons (.intro .nil .nil) .nil))
      (.cons (.intro (.cons ⟨rfl, rfl, rfl⟩ .nil) .nil) .nil))

/-- With its texts and a banner of two lines the sample has the executable lines that it has without them. -/
theorem free_text_stays_in_comments_sample :
    sample.Alike annotated ∧ ∃ script script', (generate sampleAliases sample []).result = .ok script ∧
      (generate sampleAliases annotated "x\ny".toList).result = .ok script' ∧
      executableLines script = executableLines script' := by
  refine ⟨sample_alike_annotated, ?_⟩
  obtain ⟨script, accepted⟩ := sample_accepted
  rcases free_text_stays_in_comments sample_alike_annotated sampleAliases [] "x\ny".toList with ⟨f, failed, -⟩ | h
  · rw [accepted] at failed
    cases failed
  · exact h

end Script
end ShellCompletion

import ShellCompletion.Proofs.Compilable
import ShellCompletion.Proofs.Outputs
import ShellCompletion.Proofs.Shell.DoubleQuotes
import ShellCompletion.Proofs.Shell.OneLine

/-! What the shell makes of the last line of a launcher, in which the name of the command stands in double quotes. It
    runs the command that it names exactly if no character of the name is active there. -/

namespace ShellCompletion.Tool.Generate

open FileTree Shell

variable {g : Generate} {t : FileTree} {p : Plan} {name : Text}

/-! ### The last line -/

/-- The words of a line that runs a command from where it is installed, with the arguments that are passed on. -/
def runCommand (name : Text) : List (List Sign) :=
  [literals "exec".toList, .value "APP_HOME".toList :: literals ("/bin/".toList ++ name), [.arguments]]

/-- The words of the last line of a launcher, as the shell reads them. -/
def lastWords (launcher : Text) : Option (List (List Sign)) := (Text.lines launcher).getLast?.bind readSigns

theorem newline_notMem_launcherLines (hname : '\n' ∉ name) : ∀ l ∈ launcherLines name, '\n' ∉ l := by
  have around : ∀ {front back : Text}, '\n' ∉ front → '\n' ∉ back → '\n' ∉ front ++ (name ++ back) := by
    intro front back hfront hback
    simp only [List.mem_append, not_or]
    exact ⟨hfront, hname, hback⟩
  simp only [launcherLines, List.forall_mem_cons, List.append_assoc]
  exact ⟨by decide, by decide, around (by decide) (by decide +kernel), around (by decide) (by decide), by decide,
    by decide, around (by decide) (by decide), List.forall_mem_nil _⟩

theorem lastWords_launcherText (hname : '\n' ∉ name) :
    lastWords (launcherText name) =
      readSigns ("exec \"$\x7bAPP_HOME\x7d/bin/".toList ++ name ++ "\" \"$@\"".toList) := by
  rw [lastWords, launcherText, Text.lines_unlines (newline_notMem_launcherLines hname)]
  rfl

/-- What stands before the name in the word of the command. -/
def begun : List Sign := .value "APP_HOME".toList :: literals "/bin/".toList

theorem readSigns_launcher (rest : Text) :
    readSigns ("exec \"$\x7bAPP_HOME\x7d/bin/".toList ++ rest) =
      (wordsFrom .quoted (some begun) rest).map (literals "exec".toList :: ·) := by
  rfl

theorem runCommand_eq : runCommand name = [literals "exec".toList, begun ++ literals name, [.arguments]] := by
  simp [runCommand, begun, literals]

/-- A name without a backslash is read as itself exactly if it is plain. -/
theorem lastWords_eq_runCommand_iff (hname : '\n' ∉ name) (hbackslash : '\\' ∉ name) :
    lastWords (launcherText name) = some (runCommand name) ↔ isPlainInQuotes name = true := by
  have split : "\" \"$@\"".toList = '"' :: " \"$@\"".toList := rfl
  rw [lastWords_launcherText hname, List.append_assoc, readSigns_launcher, runCommand_eq, split]
  constructor
  · intro h
    obtain ⟨words, hwords, heq⟩ := Option.map_eq_some_iff.mp h
    obtain rfl := (List.cons.inj heq).2
    have line : '\\' ∉ name ++ '"' :: " \"$@\"".toList := by
      simp [hbackslash]
    -- the words hold the name as literals, and no quote becomes one without a backslash
    have unquoted : ∀ c, c = '"' ∨ c = '`' → c ∉ name := by
      intro c hc hmem
      have notBegun : .literal c ∉ (some begun).getD [] := by obtain rfl | rfl := hc <;> decide
      refine literal_notMem_wordsFrom hwords line (by simp) hc notBegun _ (List.mem_cons_self ..) ?_
      exact List.mem_append_right _ (List.mem_map_of_mem hmem)
    rw [← List.append_nil (begun ++ literals name)] at hwords
    exact isPlainInQuotes_of_wordsFrom (unquoted _ (Or.inl rfl)) (unquoted _ (Or.inr rfl)) hbackslash hwords
  · intro h
    rw [wordsFrom_plain h]
    rfl

/-! ### Names -/

theorem isPlainInQuotes_of_forall {t : Text} (h : ∀ c ∈ t, isActiveInQuotes c = false) : isPlainInQuotes t = true := by
  induction t with
  | nil => rfl
  | cons c t ih =>
    obtain ⟨hc, ht⟩ := List.forall_mem_cons.mp h
    exact isPlainInQuotes_cons.mpr ⟨Or.inr hc, ih ht⟩

/-- Nothing is active in double quotes that can stand in a regular name. -/
theorem isPlainInQuotes_of_isRegularName (h : Validation.isRegularName name = true) : isPlainInQuotes name = true := by
  have alphanum : ∀ c, c.isAlphanum = true → isActiveInQuotes c = false := by
    intro c hc
    refine isActiveInQuotes_eq_false.mpr ⟨?_, ?_, ?_, ?_⟩ <;> (rintro rfl; cases hc)
  obtain ⟨d, t, rfl, hd, ht⟩ := Validation.isRegularName_iff.mp h
  refine isPlainInQuotes_of_forall (List.forall_mem_cons.mpr ⟨alphanum d hd, fun e he => ?_⟩)
  obtain he | he := ht e he
  · exact alphanum e he
  · have marks : ∀ e ∈ ['.', '_', '+', '-'], isActiveInQuotes e = false := by
      simp only [List.forall_mem_cons]
      exact ⟨rfl, rfl, rfl, rfl, nofun⟩
    exact marks e he

theorem Prepared.newline_notMem (h : g.Prepared t p) : '\n' ∉ p.name := by
  obtain ⟨_, _, -, -, -, hscript⟩ := h.compiled
  have usable := (Script.exists_generate_eq_ok.mp ⟨_, hscript⟩).1
  exact newline_notMem_of_isCommandWord (aliasesUsable_registered.mp usable).1

theorem ofValidText_eq_ok {format : Format} {mode : Validation.Strictness} {text : Text} {model : Command}
    (h : (Command.ofValidText format mode text).result = .ok model) :
    Command.ofText format text = .ok model ∧ (model.validate mode).result = .ok () := by
  simp only [Command.ofValidText, Logged.result_bind, Logged.result_lift, Logged.result_pure, bind_eq_ok,
    Except.ok.injEq] at h
  obtain ⟨_, htext, ⟨⟩, hvalid, rfl⟩ := h
  exact ⟨htext, hvalid⟩

theorem Prepared.isPlainInQuotes (h : g.Prepared t p) (strict : g.lenient = false) (hname : g.name = none) :
    isPlainInQuotes p.name = true := by
  obtain ⟨_, model, -, hmodel, heq, -⟩ := h.compiled
  rw [Generate.mode, strict] at hmodel
  rw [heq, hname]
  exact isPlainInQuotes_of_isRegularName (regular_of_validate (ofValidText_eq_ok hmodel).2)

/-! ### Launchers -/

/-- A run that leaves a launcher leaves one whose last line runs the command that it names exactly if the name is plain
    in double quotes. The name of a strictly valid model is; that of another, or one that was asked for, need not be. -/
theorem launcher_runs_plain_command (g : Generate) (t : FileTree)
    (succeeded : ((g.run : Session Unit) t).result = .ok ()) (asked : g.launcher = true) :
    ∃ p, g.Prepared t p ∧ g.Leaves p t ((g.run : Session Unit) t).tree ∧
      (lastWords (launcherText p.name) = some (runCommand p.name) ↔ isPlainInQuotes p.name = true) ∧
      (g.lenient = false → g.name = none → isPlainInQuotes p.name = true) := by
  obtain ⟨p, prepared, leaves⟩ := ends_run_ok ⟨succeeded, rfl⟩
  obtain ⟨-, -, -, -, hbackslash⟩ := isFileName_iff.mp (prepared.isFileName asked)
  exact ⟨p, prepared, leaves, lastWords_eq_runCommand_iff prepared.newline_notMem hbackslash, prepared.isPlainInQuotes⟩

/-- A request for a launcher of a command whose name is not that of the model; a dollar sign ends it. -/
def priced : Generate where
  model := "demo.yaml".toList
  name := some "a$".toList
  launcher := true

theorem priced_launcher_runs_command : ((priced.run : Session Unit) modelOnly).result = .ok () ∧
    ∃ p, priced.Prepared modelOnly p ∧ p.name = "a$".toList ∧
      lastWords (launcherText p.name) = some (runCommand p.name) := by
  have succeeded : ((priced.run : Session Unit) modelOnly).result = .ok () := by decide +kernel
  obtain ⟨p, prepared, -, reads, -⟩ := launcher_runs_plain_command _ _ succeeded rfl
  obtain ⟨_, _, -, -, hname, -⟩ := prepared.compiled
  exact ⟨succeeded, p, prepared, hname, reads.mpr (by rw [hname]; rfl)⟩

def expanded : Generate where
  model := "demo.yaml".toList
  name := some "a$b".toList
  launcher := true

/-- The run succeeds, and its launcher runs what is called `a` and then the value of `b`. -/
theorem launcher_expands_command_name :
    ((expanded.run : Session Unit) modelOnly).result = .ok () ∧
      ((expanded.run : Session Unit) modelOnly).tree.file? ["a$b".toList] = some (launcherFile "a$b".toList) ∧
      lastWords (launcherText "a$b".toList) =
        some [literals "exec".toList, .value "APP_HOME".toList :: literals "/bin/a".toList ++ [.value "b".toList],
          [.arguments]] ∧
      lastWords (launcherText "a$b".toList) ≠ some (runCommand "a$b".toList) := by
  decide +kernel

end ShellCompletion.Tool.Generate

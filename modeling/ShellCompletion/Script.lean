import ShellCompletion.EntryFunction

/-! The whole completion script of a command model. -/

namespace ShellCompletion
namespace Script

/-- The heading of a script for `command`, with the name and version of the generating tool. -/
def headerLines (banner command : Text) : List Text :=
  let command := Shell.comment command
  let title := command ++ " Bash Completion".toList
  ["#!/usr/bin/env bash".toList,
    "#".toList,
    "# ".toList ++ title,
    "# ".toList ++ List.replicate title.length '=',
    "#".toList,
    "# Bash completion support for the `".toList ++ command ++ "` command,".toList,
    "# generated by ".toList ++ Shell.comment banner ++ ".".toList,
    "#".toList,
    "# Installation".toList,
    "# ------------".toList,
    "#".toList,
    "# 1. Source this file from ~/.bashrc, or place it in a bash-completion".toList,
    "#    directory such as /etc/bash_completion.d or".toList,
    "#    /usr/share/bash-completion/completions.".toList,
    "#".toList,
    "# 2. Open a new bash console, and type `".toList ++ command ++ " [TAB][TAB]`".toList,
    "#".toList,
    "# Documentation".toList,
    "# -------------".toList,
    "# Bash calls the entry point function whenever [TAB] or [TAB][TAB] is".toList,
    "# pressed after '".toList ++ command ++ " (..)'. It finds the deepest subcommand typed so far and".toList,
    "# lets that subcommand's function write the possible completions to the".toList,
    "# COMPREPLY variable.".toList,
    "#".toList,
    "".toList,
    "# Enable programmable completion facilities".toList,
    "shopt -s progcomp".toList]

/-- The script of an entry point and the functions it calls, line by line. -/
def lines (banner command : Text) (functions : List CompletionFunction) (entry : EntryFunction) : List Text :=
  headerLines banner command ++ functions.flatMap (fun f => [] :: f.lines) ++ [] :: entry.lines ++
    [] :: entry.registrationLines

/-- The text of a script. -/
def assemble (banner command : Text) (functions : List CompletionFunction) (entry : EntryFunction) : Text :=
  Text.unlines (lines banner command functions entry)

/-- A word that the shell can run as a command. -/
def isCommandWord (word : Text) : Bool := !word.isEmpty && word.head? != some '-' && !word.hasSpace

/-- Checks aliases in order, and keeps the first of equal ones; `kept` were kept before. -/
def checkAliasesFrom (kept : List Text) : List Text → Except Failure (List Text)
  | [] => .ok kept
  | a :: aliases =>
    if !isCommandWord a then .error (.invalidAlias a)
    else checkAliasesFrom (if kept.contains a then kept else kept ++ [a]) aliases

/-- The distinct aliases in order. There must be one. -/
def checkAliases (aliases : List Text) : Except Failure (List Text) :=
  if aliases.isEmpty then .error .noAlias else checkAliasesFrom [] aliases

/-- The completion script of a model, registered for the aliases. -/
def generate (aliases : List Text) (model : Command) (banner : Text) : Logged Text := do
  let aliases ← Logged.lift (checkAliases aliases)
  let _ ← Logged.lift (EntryFunction.identifierOf model)
  let functions ← CompletionFunction.ofTree CompletionFunction.defaultStem model
  let entry ← Logged.lift (EntryFunction.ofFunctions model functions aliases)
  Logged.info ("Generated bash completion for ".toList ++ Failure.quoted model.name ++ ": ".toList ++
    Text.decimal functions.length ++ " functions, aliases ".toList ++ Text.join ", ".toList aliases)
  return assemble banner model.name functions entry

end Script
end ShellCompletion

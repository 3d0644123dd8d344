import ShellCompletion.Text.Space

/-! Quoting for the shell. Every text of a model that ends up in a script goes through one of these functions. -/

namespace ShellCompletion.Shell

/-- Characters that stand for themselves, both in a bare word and in a word list. -/
def isSafe (c : Char) : Bool :=
  c.isAlphanum || ['_', '-', '.', ',', ':', '/', '=', '+', '@', '%'].contains c

/-- An apostrophe closes the quotes, stands escaped outside them, and opens them again. -/
def quoteChar (c : Char) : Text := if c = '\'' then ['\'', '\\', '\'', '\''] else [c]

/-- A text in single quotes. -/
def singleQuoted (t : Text) : Text := ['\''] ++ t.flatMap quoteChar ++ ['\'']

/-- A text as one literal word, bare if possible. -/
def word (t : Text) : Text := if !t.isEmpty && t.all isSafe then t else singleQuoted t

/-- A `case` pattern that matches each of the words literally. Every alternative is quoted: a bare `esac` or `in`
    would be read as a reserved word there. -/
def casePattern (words : List Text) : Text := Text.join ['|'] (words.map singleQuoted)

/-- A backslash makes any character literal in a word list. -/
def listChar (c : Char) : Text := if isSafe c then [c] else ['\\', c]

/-- A word as `compgen -W` expands it back to itself. -/
def listWord (t : Text) : Text := t.flatMap listChar

/-- A whole word list for `compgen -W` as one quoted word. -/
def wordList (words : List Text) : Text := singleQuoted (Text.join [' '] (words.map listWord))

/-- A text that may follow `#` on one line. -/
def comment (t : Text) : Text := t.map fun c => if Text.isControl c then ' ' else c

end ShellCompletion.Shell

import ShellCompletion.Failure
import ShellCompletion.Path

/-! Trees of files, and what becomes of them when a path is read from or written to. There are no links, nothing is
    protected, and there is room for every file. Besides the files there is an output, which may refuse what is printed.

    A file is put in its place as `tempfile` does it: the text is written to a temporary file, which then takes the
    place (`persist`) or is refused where something is there already (`persist_noclobber`). It is assumed that names
    of temporary files are fresh and that none is left behind; so a file is there as a whole, or what was there is as
    it was, and nothing of the temporary file is seen. -/

namespace ShellCompletion

/-- A file by its text, which is missing if the bytes of the file are no text, and its permissions. -/
structure File where
  text : Option Text
  mode : Nat
deriving DecidableEq, Repr

namespace File

def ordinaryMode : Nat := 0o644

def executableMode : Nat := 0o755

def modeFor (executable : Bool) : Nat := if executable then executableMode else ordinaryMode

end File

/-- A place in a tree: the names from the root down to it. -/
abbrev Location := List Text

/-- Files and directories by their places. The root is a directory without being listed. -/
structure FileTree where
  workingDirectory : Location := []
  directories : List Location := []
  files : List (Location × File) := []
  /-- Does the output take the next texts that are printed? A device that is full does not, nor does a pipe that nobody
      reads. Texts after these are taken. -/
  outputs : List Bool := []
deriving DecidableEq, Repr

namespace FileTree

inductive Entry where
  | file (file : File)
  | directory
deriving DecidableEq, Repr

def file? (t : FileTree) (l : Location) : Option File := t.files.lookup l

def entry? (t : FileTree) (l : Location) : Option Entry :=
  match t.file? l with
  | some f => some (.file f)
  | none => if l.isEmpty || t.directories.contains l then some .directory else none

/-- The same tree with a file at a place. -/
def withFile (t : FileTree) (l : Location) (f : File) : FileTree :=
  { t with files := (l, f) :: t.files.filter (·.1 != l) }

def withDirectory (t : FileTree) (l : Location) : FileTree := { t with directories := l :: t.directories }

/-- Is the next text taken that is printed? -/
def takesOutput (t : FileTree) : Bool := t.outputs.headD true

/-- The same tree behind a text that was printed or refused. -/
def printed (t : FileTree) : FileTree := { t with outputs := t.outputs.tail }

/-! ### Paths -/

/-- How many bytes a name may have. -/
def nameLimit : Nat := 255

def isTooLong (name : Text) : Bool := nameLimit < name.byteCount

/-- A path with a null character names nothing. -/
def isUnusable (path : Text) : Bool := path.any (· == '\x00')

/-- Where a path begins. -/
def start (t : FileTree) (path : Text) : Location := if Path.isAbsolute path then [] else t.workingDirectory

/-- Where segments lead. Only a directory leads anywhere, but the last name may be free. -/
def walk (t : FileTree) (l : Location) : List Text → Except ReadFault Location
  | [] => .ok l
  | s :: ss =>
    match t.entry? l with
    | none => .error .missing
    | some (.file _) => .error .notDirectory
    | some .directory =>
      if Path.isIdle s then t.walk l ss
      else if Path.isUpward s then t.walk l.dropLast ss
      else if isTooLong s then .error .nameTooLong
      else t.walk (l ++ [s]) ss

/-- The place that a path names. -/
def locate (t : FileTree) (path : Text) : Except ReadFault Location :=
  if path.isEmpty then .error .missing
  else if isUnusable path then .error .unusablePath
  else t.walk (t.start path) (Path.segments path)

def isPresent (t : FileTree) (path : Text) : Bool :=
  match t.locate path with
  | .ok l => (t.entry? l).isSome
  | .error _ => false

def read (t : FileTree) (path : Text) : Except ReadFault Text :=
  match t.locate path with
  | .error f => .error f
  | .ok l =>
    match t.entry? l with
    | some (.file f) => (f.text.map Except.ok).getD (.error .notText)
    | some .directory => .error .isDirectory
    | none => .error .missing

/-! ### Writing -/

/-- Makes the directories that segments lead through, as far as they are missing. What was made before a failure
    is in the tree. -/
def makeFrom (t : FileTree) (l : Location) : List Text → FileTree × Except Failure Unit
  | [] => (t, .ok ())
  | s :: ss =>
    if Path.isIdle s then t.makeFrom l ss
    else if Path.isUpward s then t.makeFrom l.dropLast ss
    else
      match t.entry? (l ++ [s]) with
      | some .directory => t.makeFrom (l ++ [s]) ss
      | some (.file _) => (t, .error .io)
      | none => if isTooLong s then (t, .error .io) else (t.withDirectory (l ++ [s])).makeFrom (l ++ [s]) ss

/-- Makes every directory on a path that is missing. Those made before a failure remain. -/
def makeDirectories (t : FileTree) (path : Text) : FileTree × Except Failure Unit :=
  if isUnusable path then (t, .error .io) else t.makeFrom (t.start path) (Path.segments path)

/-- A path to be written to: what leads to its last name, the name, and whether slashes follow it. -/
structure Target where
  leading : List Text
  name : Text
  isOpen : Bool

def targetOf (path : Text) : Target :=
  match (Path.segments path).reverse.dropWhile (·.isEmpty) with
  | [] => ⟨[], [], true⟩
  | name :: ss => ⟨ss.reverse, name, path.getLast? == some '/'⟩

/-- The tree with a file in its place, where `persist` or `persist_noclobber` puts it. A directory is never replaced, a
    file only if that is asked for. -/
def place (t : FileTree) (path : Text) (f : File) (overwrite : Bool) : Except Failure FileTree :=
  let target := targetOf path
  match t.walk (t.start path) (target.leading ++ [[]]) with
  | .error _ => .error .io
  | .ok l =>
    if isUnusable path then .error .io
    else if Path.isIdle target.name || Path.isUpward target.name then
      .error (if overwrite then .io else .fileExists path)
    else if isTooLong target.name then .error .io
    else
      let l := l ++ [target.name]
      match t.entry? l with
      | some .directory => .error (if overwrite then .io else .fileExists path)
      | some (.file _) =>
        if !overwrite then .error (.fileExists path) else if target.isOpen then .error .io else .ok (t.withFile l f)
      | none => if target.isOpen then .error .io else .ok (t.withFile l f)

end FileTree
end ShellCompletion

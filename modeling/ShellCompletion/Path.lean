import ShellCompletion.Text.Basic

/-! Paths of files as texts. A path is a list of segments between slashes; an empty segment, and a single dot,
    lead nowhere. -/

namespace ShellCompletion.Path

/-- The segments of a path. The path of a place that is counted from the root begins with an empty one. -/
def segments : Text → List Text
  | [] => [[]]
  | c :: t =>
    if c = '/' then [] :: segments t
    else
      match segments t with
      | [] => [[c]]
      | s :: ss => (c :: s) :: ss

def isAbsolute (path : Text) : Bool := path.head? == some '/'

/-- A segment that leads nowhere. -/
def isIdle (s : Text) : Bool := s.isEmpty || s == ['.']

def isUpward (s : Text) : Bool := s == ['.', '.']

/-- Segments from the last one back, without the idle ones at the end; the first segment of all stays. -/
def dropIdle : List Text → List Text
  | s :: r :: ss => if isIdle s then dropIdle (r :: ss) else s :: r :: ss
  | ss => ss

/-- The path of these segments, given from the last one back. -/
def ofReversed (ss : List Text) : Text :=
  if ss = [[]] then ['/'] else Text.join ['/'] ss.reverse

/-- The path without its last name. The root has none, and neither has the empty path. -/
def parent? (path : Text) : Option Text :=
  match dropIdle (segments path).reverse with
  | [] | [[]] => none
  | [_] => some []
  | _ :: ss => some (ofReversed (dropIdle ss))

/-- The last name of a path, if it names something. -/
def fileName? (path : Text) : Option Text :=
  (dropIdle (segments path).reverse).head?.filter fun s => !isIdle s && !isUpward s

/-- What follows the last dot of the last name, unless the name begins with it. -/
def extension? (path : Text) : Option Text := do
  let name := (← fileName? path).reverse
  match name.dropWhile (· != '.') with
  | '.' :: _ :: _ => some (name.takeWhile (· != '.')).reverse
  | _ => none

/-- A path that continues another one. -/
def append (path name : Text) : Text :=
  if isAbsolute name || path.isEmpty then name
  else if path.getLast? = some '/' then path ++ name
  else path ++ ['/'] ++ name

end ShellCompletion.Path

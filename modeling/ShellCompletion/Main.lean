import ShellCompletion.Tool.Basic

/-! The tool as a program: commands run on the files of the system, events and failures go to the error stream. -/

namespace ShellCompletion

/-- A run on the system, which may be verbose. -/
abbrev Terminal := ReaderT Bool (ExceptT Failure IO)

namespace Terminal

/-- An action that fails as the system does. -/
def act {α : Type} (action : IO α) : Terminal α := fun _ => ExceptT.mk do
  try
    return .ok (← action)
  catch _ =>
    return .error .io

def faultOf : IO.Error → ReadFault
  | .inappropriateType _ 21 _ => .isDirectory
  | .inappropriateType .. => .notDirectory
  | .invalidArgument _ 22 _ => .unusablePath
  | .invalidArgument .. => .nameTooLong
  | _ => .missing

def readFile (path : String) : IO (Except ReadFault Text) := do
  try
    match String.fromUTF8? (← IO.FS.readBinFile path) with
    | some text => return .ok text.toList
    | none => return .error .notText
  catch e =>
    return .error (faultOf e)

def isPresent (path : String) : IO Bool := do
  try
    let _ ← IO.FS.Handle.mk path .read
    return true
  catch _ =>
    return false

/-- The permissions of a file: everyone may read it, and its owner may change it. -/
def rights (executable : Bool) : IO.FileRight :=
  let others : IO.AccessRight := { read := true, execution := executable }
  { user := { others with write := true }, group := others, other := others }

/-- Writes a file beside its place and then puts it there. -/
def placeFile (path text : Text) (executable : Bool) : IO Unit := do
  let name := ".tmp".toList ++ Text.decimal (← IO.rand 0 999999999)
  let draft := String.ofList (Path.append (Host.directoryOf path) name)
  IO.FS.writeFile draft (String.ofList text)
  IO.setAccessRights draft (rights executable)
  try
    IO.FS.rename draft (String.ofList path)
  catch e =>
    IO.FS.removeFile draft
    throw e

/-- Prints a text and waits until it is out, so that a refusal is seen. -/
def printFully (text : String) : IO Unit := do
  let out ← IO.getStdout
  out.putStr text
  out.flush

instance : Host Terminal where
  fail f := throw f
  log e := fun verbose => ExceptT.mk do
    if e.isShown verbose then IO.eprintln (String.ofList e.line)
    return .ok ()
  print text := act (printFully (String.ofList text))
  read path := act (readFile (String.ofList path))
  isPresent path := act (isPresent (String.ofList path))
  makeDirectories path := act (IO.FS.createDirAll (String.ofList path))
  place path text executable overwrite := do
    if !overwrite then
      if ← act (isPresent (String.ofList path)) then throw (.fileExists path)
    act (placeFile path text executable)

/-- Runs a request and reports its failure. -/
def report (invocation : Tool.Invocation) : IO UInt32 := do
  match ← ExceptT.run ((invocation.request.run : Terminal Unit) invocation.verbose) with
  | .ok _ => return 0
  | .error f =>
    IO.eprintln (String.ofList ("Error: ".toList ++ f.message))
    if f.isModelDefect then IO.eprintln "The command model was rejected; nothing was written."
    return f.exitCode.toUInt32

end Terminal
end ShellCompletion

def main (args : List String) : IO UInt32 := do
  match ShellCompletion.Tool.parse (args.map (·.toList)) with
  | .ok invocation => ShellCompletion.Terminal.report invocation
  | .error fault =>
    if fault = .showVersion then IO.println (String.ofList ShellCompletion.Tool.banner)
    return fault.exitCode.toUInt32

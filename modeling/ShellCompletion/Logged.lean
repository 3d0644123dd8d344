import ShellCompletion.Failure

/-! Computations that log events and may fail. What was logged before a failure stays logged. -/

namespace ShellCompletion

/-- The weight of a logged event. -/
inductive Level where
  | debug
  | info
  | warning
deriving DecidableEq, Repr

structure Event where
  level : Level
  message : Text
deriving DecidableEq, Repr

namespace Event

/-- The event as a line of the log. -/
def line (e : Event) : Text :=
  (match e.level with
    | .debug => "DEBUG ".toList
    | .info => "INFO ".toList
    | .warning => "WARN ".toList) ++ e.message

/-- Is the event shown? Debugging events are for verbose runs only. -/
def isShown (verbose : Bool) (e : Event) : Bool := verbose || e.level != .debug

end Event

/-- The events of a computation, in order, and its result. -/
structure Logged (α : Type) where
  events : List Event
  result : Except Failure α

namespace Logged

/-- A computation that logs nothing. -/
def lift {α : Type} (result : Except Failure α) : Logged α := ⟨[], result⟩

/-- A failure stops the computation; the events before it remain. -/
def andThen {α β : Type} (x : Logged α) (f : α → Logged β) : Logged β :=
  match x.result with
  | .error e => ⟨x.events, .error e⟩
  | .ok a => ⟨x.events ++ (f a).events, (f a).result⟩

instance : Monad Logged where
  pure a := lift (.ok a)
  bind := andThen

def fail {α : Type} (f : Failure) : Logged α := lift (.error f)

def log (level : Level) (message : Text) : Logged Unit := ⟨[⟨level, message⟩], .ok ()⟩

def debug (message : Text) : Logged Unit := log .debug message

def info (message : Text) : Logged Unit := log .info message

def warn (message : Text) : Logged Unit := log .warning message

end Logged
end ShellCompletion

import CooperativeLisp.Fault

/-!
Streams: compiled expressions as flat sequences of frames. A value frame pushes onto the value
stack, a call frame takes its arguments from there, an error frame ends the run. A stream is built
from its last frame towards its first, so what is added later runs earlier.
-/

namespace CooperativeLisp

/-- What a call frame invokes: a callable, or the rest of a form that waits for the value of its
first operand. -/
inductive Operation where
  | callable (c : Callable)
  /-- compiles the branch that the condition chooses -/
  | branch (env : Environment) (consequent alternative : Value)
  /-- drops the value and compiles the next expression of a sequence -/
  | sequel (env : Environment) (next : Value)

/-- One instruction of a stream. -/
inductive Frame where
  | value (v : Value)
  | call (operation : Operation) (argc : Nat) (origin : Value)
  | error (e : Error)

/-- A compiled unit. The frames stand in the order in which they run; `failed` says that compiling
it met an error. -/
structure Stream where
  frames : List Frame := []
  failed : Bool := false
deriving Inhabited

def Operation.display : Operation → String
  | callable c => c.display
  | branch .. => "#<native:if>"
  | sequel .. => "#<native:progn>"

/-- The tagged text of a frame. -/
def Frame.tagged : Frame → String
  | value v => "Value(" ++ v.display ++ ")"
  | call operation argc origin =>
    "Call(" ++ operation.display ++ ", " ++ toString argc ++ ", " ++ origin.display ++ ")"
  | error e => "Error(" ++ e.message ++ ")"

namespace Stream

def empty : Stream := {}

/-- Adds a frame that pushes a value. -/
def pushValue (s : Stream) (v : Value) : Stream :=
  { s with frames := .value v :: s.frames }

/-- Adds a frame that invokes an operation with `argc` values; `origin` is the expression it was
compiled from. -/
def pushCall (s : Stream) (operation : Operation) (argc : Nat) (origin : Value) : Stream :=
  { s with frames := .call operation argc origin :: s.frames }

/-- Adds a frame that ends the run, which marks the stream as failed. -/
def pushError (s : Stream) (e : Error) : Stream :=
  { frames := .error e :: s.frames, failed := true }

/-- Puts another stream in front: its frames run first. -/
def merge (s other : Stream) : Stream :=
  { frames := other.frames ++ s.frames, failed := s.failed || other.failed }

def length (s : Stream) : Nat :=
  s.frames.length

/-- The tagged text of a stream, with the frame that runs first at the end. -/
def tagged (s : Stream) : String :=
  "Thunk \x7b frames: [" ++ ", ".intercalate (s.frames.reverse.map Frame.tagged) ++
    "], failed: " ++ toString s.failed ++ " \x7d"

end Stream

/-- What an invocation or a form hands back: a ready value, or more work for the run. -/
inductive Outcome where
  | value (v : Value)
  | stream (s : Stream)

/-- The tagged text of an outcome. -/
def Outcome.tagged : Outcome → String
  | value v => "Value(" ++ v.tagged ++ ")"
  | stream s => "Thunk(" ++ toString s.length ++ " frames)"

end CooperativeLisp

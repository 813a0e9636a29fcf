import CooperativeLisp.Engine.Invoke

/-!
The machine that runs streams. It takes one frame after the other; a stream that a callable
answers with is put in front of the frames that wait, so no run nests in another and calls of
closures use no stack of the host.
-/

namespace CooperativeLisp

/-- A run between two frames: the frames that wait, the values with the latest first, and the
origins of the latest call frames, most recent first. -/
structure Machine where
  frames : List Frame
  stack : List Value
  trace : List Value
  cap : BacktraceCap

/-- What one step, or one slice, of a run leads to. -/
inductive Advance where
  | pending (m : Machine)
  | done (result : Except Error Value)

namespace Machine

/-- The start of a run. At least one expression is kept in a backtrace. -/
def start (s : Stream) (cap : BacktraceCap) : Machine :=
  ⟨s.frames, [], [], max cap 1⟩

/-- The result of a run whose frames are used up: the only value left. -/
def finish (m : Machine) : Except Error Value :=
  match m.stack with
  | [v] => .ok v
  | [] => .error (Fault.internal .noValue)
  | many => .error (Fault.internal (.surplus many.length))

/-- The result of a run that fails. -/
def fail (m : Machine) (e : Error) : Advance :=
  .done (.error (e.withTrace m.trace m.cap))

/-- A run ends as soon as no frame is left. -/
def settle (m : Machine) : Advance :=
  if m.frames.isEmpty then .done m.finish else .pending m

/-- The machine after a call frame has taken its arguments. -/
def enter (m : Machine) (frames : List Frame) (argc : Nat) (origin : Value) : Machine :=
  { m with frames, stack := m.stack.drop argc, trace := (origin :: m.trace).take m.cap }

/-- The machine after an invocation has answered. -/
def accept (m : Machine) : Outcome → Machine
  | .value v => { m with stack := v :: m.stack }
  | .stream s => { m with frames := s.frames ++ m.frames }

/-- What the answer of an invocation leads to. -/
def answered (m : Machine) : Except Error Outcome → Advance
  | .ok outcome => (m.accept outcome).settle
  | .error e => m.fail e

end Machine

namespace Engine

variable {σ : Type}

/-- Executes one frame. -/
def step (g : Engine σ) (m : Machine) : Effect σ Advance :=
  match m.frames with
  | [] => return .done m.finish
  | .value v :: frames => return { m with frames, stack := v :: m.stack : Machine }.settle
  | .error e :: _ => return m.fail e
  | .call operation argc origin :: frames => do
    let args := m.stack.take argc
    if args.length < argc then
      return m.fail (Fault.internal (.underflow argc args.length))
    else
      return (m.enter frames argc origin).answered (← (g.perform operation args.reverse).run)

/-- Executes frames until the run ends. -/
def finishWithin (g : Engine σ) : Nat → Machine → Effect σ (Except Error Value)
  | 0, _ => Effect.exhausted
  | fuel + 1, m => do
    match ← g.step m with
    | .pending m => g.finishWithin fuel m
    | .done result => return result

/-- Runs a stream to its end. -/
def execute (g : Engine σ) (s : Stream) (cap : BacktraceCap) : Effect σ (Except Error Value) :=
  g.finishWithin g.fuel (.start s cap)

/-- Compiles an expression and runs it to its end. -/
def evaluateOnce (g : Engine σ) (env : Environment) (e : Value) (cap : BacktraceCap) :
    Effect σ (Except Error Value) := do
  g.execute (← g.compile env e) cap

/-- The engine with so much fuel. Evaluations nested in a compilation run on an engine with less,
so their nesting is bounded by the fuel as well. -/
def withFuel (host : Host σ) : Nat → Engine σ
  | 0 => { host, fuel := 0, evaluate := fun _ _ _ => Effect.exhausted }
  | fuel + 1 =>
    { host, fuel := fuel + 1,
      evaluate := fun env e cap => (withFuel host fuel).evaluateOnce env e cap }

end Engine

end CooperativeLisp

import CooperativeLisp.Engine.Machine

/-!
Runs in time slices. A task is a paused run: each slice executes batches of frames until the run
ends or the clock says that the slice's budget is used up. The clock is data, so what a task does
is known for every behaviour of the clock.
-/

namespace CooperativeLisp

/-- Milliseconds that have passed since the start of a slice when its batches end, by the number
of the batch. -/
abbrev Clock := Nat → Nat

/-- A clock on which no time passes. A budget of zero is used up on it at once, any other never. -/
def Clock.still : Clock := fun _ => 0

/-- A run in slices; it has no machine left once it has ended. -/
structure Task where
  machine? : Option Machine
  budget : Nat
  batch : Nat
  slices : Nat

/-- What a slice led to. -/
inductive Progress where
  | yielded
  | done (result : Except Error Value)

/-- What polling a task led to, and how often its waker was called. -/
structure Poll where
  progress : Progress
  wakes : Nat

namespace Task

/-- A task that has not run yet. A batch has at least one frame. -/
def start (m : Machine) (budget batch : Nat) : Task :=
  ⟨some m, budget, max batch 1, 0⟩

/-- Bounds the backtrace of a failure. -/
def withMaxBacktrace (t : Task) (cap : BacktraceCap) : Task :=
  { t with machine? := t.machine?.map fun m => { m with cap := max cap 1 } }

/-- Before a task has run, bounding the backtrace is starting it with that bound. -/
theorem withMaxBacktrace_start (s : Stream) (default cap : BacktraceCap) (budget batch : Nat) :
    (start (.start s default) budget batch).withMaxBacktrace cap =
      start (.start s cap) budget batch :=
  rfl

def isFinished (t : Task) : Bool :=
  t.machine?.isNone

/-- What a slice leaves of a task, and what it led to. -/
def after (t : Task) : Advance → Progress × Task
  | .pending m => (.yielded, { t with machine? := some m, slices := t.slices + 1 })
  | .done result => (.done result, { t with machine? := none, slices := t.slices + 1 })

end Task

namespace Engine

variable {σ : Type}

/-- Executes so many frames, or fewer if the run ends. -/
def runBatch (g : Engine σ) : Nat → Machine → Effect σ Advance
  | 0, m => return .pending m
  | n + 1, m => do
    match ← g.step m with
    | .pending m => g.runBatch n m
    | result => return result

/-- Executes batches until the run ends or, after a batch, the clock is at the budget. `round` is
the number of the next batch. -/
def runSlice (g : Engine σ) (clock : Clock) (budget batch : Nat) :
    Nat → Nat → Machine → Effect σ Advance
  | 0, _, _ => Effect.exhausted
  | fuel + 1, round, m => do
    match ← g.runBatch batch m with
    | .pending m =>
      if budget ≤ clock round then return .pending m
      else g.runSlice clock budget batch fuel (round + 1) m
    | result => return result

/-- Runs one slice of a task. A task that has ended only reports that it has. -/
def resume (g : Engine σ) (clock : Clock) (t : Task) : Effect σ (Progress × Task) :=
  match t.machine? with
  | none => return (.done (.error (Fault.internal .resumedAfterCompletion)), t)
  | some m => return t.after (← g.runSlice clock t.budget t.batch g.fuel 0 m)

/-- Runs one slice of a task; if the run goes on, the waker is called once. -/
def poll (g : Engine σ) (clock : Clock) (t : Task) : Effect σ (Poll × Task) := do
  let (progress, t) ← g.resume clock t
  match progress with
  | .yielded => return (⟨progress, 1⟩, t)
  | .done _ => return (⟨progress, 0⟩, t)

/-- Resumes a task until its run ends; `clocks` gives the clock of each slice. -/
def completeWithin (g : Engine σ) (clocks : Nat → Clock) :
    Nat → Task → Effect σ (Except Error Value)
  | 0, _ => Effect.exhausted
  | fuel + 1, t => do
    let (progress, t) ← g.resume (clocks t.slices) t
    match progress with
    | .yielded => g.completeWithin clocks fuel t
    | .done result => return result

/-- Resumes a task until its run ends. -/
def complete (g : Engine σ) (clocks : Nat → Clock) (t : Task) : Effect σ (Except Error Value) :=
  g.completeWithin clocks g.fuel t

end Engine

end CooperativeLisp

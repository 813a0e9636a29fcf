import CooperativeLisp.Engine.Task
import CooperativeLisp.Library.Catalogue

/-!
Interpreters: a root environment seeded from a base table with the host's extensions on top, and
the settings shared by every run.
-/

namespace CooperativeLisp

/-- The settings of an interpreter. -/
structure Config where
  /-- milliseconds a slice may use before it yields -/
  sliceBudget : Nat := 250
  /-- frames executed between two looks at the clock -/
  batch : Nat := 1000
  /-- expressions kept in the backtrace of a failure -/
  maxBacktrace : BacktraceCap := 10
deriving DecidableEq, Repr

/-- An interpreter. -/
structure Interpreter where
  root : Environment
  config : Config

namespace Interpreter

variable {σ : Type}

/-- The table an interpreter starts from: the base, then the declaring form, then the extensions.
Later entries replace earlier ones, so a host may replace the declaring form too. -/
def seed (base extensions : Table) (config : Config) : Table :=
  let exports : Form := .exports config.maxBacktrace
  Table.overlay (base.insert exports.name (.form exports)) extensions

/-- Builds an interpreter in a world. -/
def build (w : World σ) (base extensions : Table) (config : Config) : Interpreter × World σ :=
  let (root, w) := w.openRoot (seed base extensions config)
  (⟨root, config⟩, w)

/-- Compiles an expression against the root. -/
def compile (i : Interpreter) (g : Engine σ) (e : Value) : Effect σ Stream :=
  g.compile i.root e

/-- Runs a compiled stream to its end. -/
def execute (i : Interpreter) (g : Engine σ) (s : Stream) : Effect σ (Except Error Value) :=
  g.execute s i.config.maxBacktrace

/-- Compiles an expression and runs it to its end. -/
def evaluate (i : Interpreter) (g : Engine σ) (e : Value) : Effect σ (Except Error Value) :=
  g.evaluateOnce i.root e i.config.maxBacktrace

/-- A task that runs a compiled stream in slices. Its backtrace is bounded from the start, which is the
same as bounding it before the first slice (`Task.withMaxBacktrace_start`). -/
def startTask (i : Interpreter) (s : Stream) : Task :=
  (Task.start (.start s i.config.maxBacktrace) i.config.sliceBudget i.config.batch)

/-- A task that runs an expression in slices; it is compiled at once. -/
def startEvaluation (i : Interpreter) (g : Engine σ) (e : Value) : Effect σ Task :=
  return i.startTask (← i.compile g e)

end Interpreter

/-- More fuel than any run can use up. -/
def ampleFuel : Nat := Nat.pow 2 62

end CooperativeLisp

import CooperativeLisp.Scope.Store
import CooperativeLisp.Stream
import CooperativeLisp.LambdaList

/-!
What a run can change, and what a host may do. The world holds the scopes, the supply of closure
identities and a state of the host's own; host functions read and change it and answer with a
value, with a stream, or with work they leave to the engine.
-/

namespace CooperativeLisp

/-- Everything that outlives a single step of a run. -/
structure World (σ : Type) where
  scopes : Scopes := {}
  closures : Nat := 0
  host : σ

/-- A computation over the world that may exhaust its fuel. -/
abbrev Effect (σ : Type) := StateT (World σ) Option

/-- A computation over the world that may exhaust its fuel or fail. -/
abbrev Attempt (σ : Type) := ExceptT Error (Effect σ)

/-- What a form answers: a value, a stream, or an expression to be compiled. -/
inductive Answer where
  | value (v : Value)
  | stream (s : Stream)
  | compile (env : Environment) (e : Value)

/-- What a native answers: the same, or a callable to be invoked in its place. -/
inductive Reply where
  | answer (a : Answer)
  | invoke (c : Callable) (args : List Value)

instance : Coe Answer Reply := ⟨.answer⟩

/-- A host function: it always ends, and may fail. -/
abbrev HostAction (σ : Type) := ExceptT Error (StateM (World σ))

/-- The meaning of the callables that a host adds, by their names. -/
structure Host (σ : Type) where
  native : String → List Value → HostAction σ Reply
  form : String → List Value → Environment → HostAction σ Answer
  expander : String → List Value → Environment → HostAction σ Value

/-- A host that adds nothing. -/
def Host.none (σ : Type) : Host σ where
  native name _ := throw (.ofFault (.illegalCall name))
  form name _ _ := throw (.ofFault (.illegalCall name))
  expander name _ _ := throw (.ofFault (.illegalCall name))

/-- The computation that has no fuel left. -/
def Effect.exhausted {σ α : Type} : Effect σ α := fun _ => none

namespace Attempt

variable {σ α : Type}

/-- The result of a check that does not touch the world. -/
def ofExcept (x : Except Error α) : Attempt σ α :=
  ExceptT.mk fun w => some (x, w)

/-- The result of a computation that reports its failure as a value. -/
def ofEffect (x : Effect σ (Except Error α)) : Attempt σ α :=
  ExceptT.mk x

/-- Runs a host function as part of a run. -/
def ofHost (action : HostAction σ α) : Attempt σ α :=
  ExceptT.mk fun w => some (action.run.run w)

/-- Fails for a cause. -/
def fail (fault : Fault) : Attempt σ α :=
  ofExcept (.error (.ofFault fault))

/-- Reads the scopes. -/
def scopes : Attempt σ Scopes :=
  ExceptT.mk fun w => some (.ok w.scopes, w)

/-- Opens a scope with some bindings inside an environment. -/
def openChild (env : Environment) (table : Table) : Attempt σ Environment :=
  ExceptT.mk fun w =>
    let (child, scopes) := w.scopes.openChild env table
    some (.ok child, { w with scopes })

end Attempt

namespace World

variable {σ : Type}

/-- Opens a root scope with the entries of a table. -/
def openRoot (w : World σ) (table : Table) : Environment × World σ :=
  let (env, scopes) := w.scopes.openRoot table
  (env, { w with scopes })

/-- Binds a name in the scope of an environment; a failure changes nothing. -/
def bind (w : World σ) (env : Environment) (name : String) (v : Value) :
    Except Error Unit × World σ :=
  match w.scopes.bind env name v with
  | .ok scopes => (.ok (), { w with scopes })
  | .error e => (.error e, w)

/-- Makes a closure with an identity that no other closure has. -/
def makeClosure (w : World σ) (params body : Value) (env : Environment) :
    Except Error Closure × World σ :=
  (Closure.make w.closures params body env, { w with closures := w.closures + 1 })

end World

end CooperativeLisp

import CooperativeLisp.Engine.Basic
import CooperativeLisp.Library.Catalogue

/-!
Compilation of expressions into streams. The expressions still to be compiled stand on a work
list. Symbols are resolved as they are met, so the operands of an application are resolved from
the last to the first; expanders and forms are run here, natives and closures are not. The first
failure puts an error frame in front of the stream and ends the compilation.
-/

namespace CooperativeLisp

/-- What compiling one expression adds to the stream and to the work list. -/
inductive Piece where
  /-- a value frame -/
  | value (v : Value)
  /-- the frames of a stream -/
  | splice (s : Stream)
  /-- another expression in place of this one -/
  | instead (e : Value)
  /-- a call frame, and the operands whose values it takes -/
  | application (c : Callable) (operands : List Value)

namespace Engine

variable {σ : Type}

/-- The native that invokes its first argument. -/
def callNative : Value := .primitive .call

/-- The body of a closure: several expressions run in sequence. -/
def bodyOf : List Value → Value
  | [] => .nil
  | [single] => single
  | many => Library.apply (.form .sequence) many

/-- Makes a closure from the operands of a `lambda`. -/
def makeClosure (env : Environment) (params : Value) (body : List Value) : Attempt σ Value := do
  let c ← ExceptT.mk fun w => some (w.makeClosure params (bodyOf body) env)
  return .callable (.closure c)

/-- The name a declaration may bind. -/
def declaredName : Value → Except Error String
  | .symbol name => .ok name
  | .nil => .error (Fault.reserved Symbol.nilName)
  | .truth => .error (Fault.reserved Symbol.truthName)
  | v => .error (Fault.type (.exported v))

/-- Declares names at the root in turn. Each expression is evaluated there to the end before the
next name is looked at. -/
def declare (g : Engine σ) (root : Environment) (cap : BacktraceCap) :
    List Binding → Attempt σ Value
  | [] => return .truth
  | b :: more => do
    let name ← Attempt.ofExcept (declaredName b.name)
    let scopes ← Attempt.scopes
    if scopes.binds root name then
      Attempt.fail (.alreadyDefined name)
    else
      let v ← Attempt.ofEffect (g.evaluate root b.init cap)
      ExceptT.mk fun w => some (w.bind root name v)
      declare g root cap more

/-- The choice between two branches, which waits for the value of a condition. -/
def choice (env : Environment) (consequent alternative : Value) (operands : List Value) : Stream :=
  Stream.empty.pushCall (.branch env consequent alternative) 1
    (Library.apply (.symbol "if") operands)

/-- The expressions of a sequence behind the first, each of which waits for the value of the one
before it. -/
def sequels (env : Environment) (first : Value) (rest : List Value) : Stream :=
  let origin := Library.apply (.symbol "progn") (first :: rest)
  rest.reverse.foldl (fun s e => s.pushCall (.sequel env e) 1 origin) Stream.empty

/-- Compiles an expression in front of what waits for its value. -/
def compileBefore (compile : Environment → Value → Effect σ Stream) (env : Environment)
    (e : Value) (waiting : Stream) : Effect σ Stream := do
  return waiting.merge (← compile env e)

/-- What a form answers to operands of which it accepts so many. `compile` compiles the operand
whose value the form waits for; the other operands are compiled only when the run gets to them. -/
def formAnswer (g : Engine σ) (compile : Environment → Value → Effect σ Stream) (f : Form)
    (operands : List Value) (env : Environment) : Attempt σ Outcome := do
  match f, operands with
  | .quote, operands => return .value (operands.headD .nil)
  | .lambda, params :: body => return .value (← makeClosure env params body)
  | .lambda, [] => Attempt.fail (.arity 1 0)
  | .conditional, [c, t] =>
    return .stream (← compileBefore compile env c (choice env t .nil operands))
  | .conditional, [c, t, e] =>
    return .stream (← compileBefore compile env c (choice env t e operands))
  | .conditional, _ => Attempt.fail (.arity 3 operands.length)
  | .sequence, [] => return .value .nil
  | .sequence, first :: rest =>
    return .stream (← compileBefore compile env first (sequels env first rest))
  | .exports cap, operands =>
    let bindings ← Attempt.ofExcept (Binding.readAll (operands.headD .nil))
    return .value (← declare g env.root cap bindings)
  | .host name, operands =>
    match ← Attempt.ofHost (g.host.form name operands env) with
    | .value v => return .value v
    | .stream s => return .stream s
    | .compile env e => return .stream (← compile env e)

/-- What a form answers to its operands, whose number is checked before anything else. -/
def applyForm (g : Engine σ) (compile : Environment → Value → Effect σ Stream) (f : Form)
    (operands : List Value) (env : Environment) : Attempt σ Outcome := do
  Attempt.ofExcept (f.arity.validate operands.length)
  g.formAnswer compile f operands env

/-- The replacement of an application by an expander. -/
def expand (g : Engine σ) (r : Expander) (operands : List Value) (env : Environment) :
    Attempt σ Value := do
  Attempt.ofExcept (r.arity.validate operands.length)
  match r.expand? operands with
  | some replacement => Attempt.ofExcept replacement
  | none => Attempt.ofHost (g.host.expander r.name operands env)

/-- The callable that an operator stands for. -/
def resolveOperator (env : Environment) : Value → Attempt σ Callable
  | .symbol name => do
    match ← lookup env name with
    | .callable c => return c
    | _ => Attempt.fail (.illegalCall name)
  | .callable c => return c
  | v => Attempt.fail (.illegalCall v.display)

/-- Compiles an application of a callable. -/
def compileApplication (g : Engine σ) (compile : Environment → Value → Effect σ Stream)
    (env : Environment) (operands : List Value) : Callable → Attempt σ Piece
  | .expander r => do return .instead (← g.expand r operands env)
  | .form f => do
    match ← g.applyForm compile f operands env with
    | .value v => return .value v
    | .stream s => return .splice s
  | c => return .application c operands

/-- Compiles one expression. An application whose operator is itself an application becomes a call
of the operator's value. -/
def compileOne (g : Engine σ) (compile : Environment → Value → Effect σ Stream) (env : Environment)
    (e : Value) : Attempt σ Piece :=
  match e with
  | .symbol name =>
    if name == Symbol.nilName then return .value .nil
    else if name == Symbol.truthName then return .value .truth
    else return .value (← lookup env name)
  | .list [] => return .value .nil
  | .list (.list (x :: xs) :: operands) =>
    return .instead (Library.apply callNative (.list (x :: xs) :: operands))
  | .list (operator :: operands) => do
    g.compileApplication compile env operands (← resolveOperator env operator)
  | atom => return .value atom

/-- Compiles the expressions of a work list in front of a stream. -/
def compileOnto (g : Engine σ) : Nat → Environment → List Value → Stream → Effect σ Stream
  | 0, _, _, _ => Effect.exhausted
  | _ + 1, _, [], s => return s
  | fuel + 1, env, e :: pending, s => do
    let piece ← (g.compileOne (fun env e => g.compileOnto fuel env [e] .empty) env e).run
    match piece with
    | .error error => return s.pushError (error.withOrigin e)
    | .ok (.value v) => g.compileOnto fuel env pending (s.pushValue v)
    | .ok (.splice more) =>
      if more.failed then return s.merge more
      else g.compileOnto fuel env pending (s.merge more)
    | .ok (.instead e) => g.compileOnto fuel env (e :: pending) s
    | .ok (.application c operands) =>
      g.compileOnto fuel env (operands.reverse ++ pending)
        (s.pushCall (.callable c) operands.length e)

/-- Compiles an expression against an environment. The stream can always be run: if compilation
failed, its first frame is the error. -/
def compile (g : Engine σ) (env : Environment) (e : Value) : Effect σ Stream :=
  g.compileOnto g.fuel env [e] .empty

end Engine

end CooperativeLisp

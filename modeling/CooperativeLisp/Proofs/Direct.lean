import CooperativeLisp.Interpreter
import CooperativeLisp.Proofs.Resolved

/-!
A direct evaluator, without streams, frames or fuel. An expression is resolved from the right to
the left, which invokes neither natives nor closures; the tree it becomes is evaluated from the
left to the right. A relation holds between an expression and a result exactly if the evaluation
ends with it, and the result of a failure is its cause alone.
-/

namespace CooperativeLisp

variable {σ : Type}

/-- The callable that an operator stands for. -/
def Scopes.operator (scopes : Scopes) (env : Environment) : Value → Except Fault Callable
  | .symbol name =>
    match scopes.get? env name with
    | some (.callable c) => .ok c
    | some _ => .error (.illegalCall name)
    | none => .error (.unbound name)
  | .callable c => .ok c
  | v => .error (.illegalCall v.display)

/-- Numbers, markers and callables stand for themselves. -/
def Value.IsAtom : Value → Prop
  | .symbol _ | .list _ => False
  | _ => True

/-- The operator of an application that computes it. -/
def Value.IsComputed (operator : Value) : Prop :=
  ∃ first rest, operator = .list (first :: rest)

/-- Natives and closures are invoked by the run; forms and expanders are gone before. -/
def Callable.IsFunction : Callable → Prop
  | .native _ | .closure _ => True
  | .form _ | .expander _ => False

/-- The tree of a sequence: the expressions behind the first are not resolved yet. -/
def Resolved.sequence (env : Environment) (first : Value) (rest : List Value) (t : Resolved) :
    Resolved :=
  let origin := Library.apply (.symbol "progn") (first :: rest)
  rest.foldl (fun t next => .application (.sequel env next) [t] origin) t

/-- The tree of a condition: none of the branches is resolved yet. -/
def Resolved.conditional (env : Environment) (operands : List Value)
    (consequent alternative : Value) (t : Resolved) : Resolved :=
  .application (.branch env consequent alternative) [t] (Library.apply (.symbol "if") operands)

namespace Host

/-- The replacement of an application by an expander. -/
def expansion (host : Host σ) (r : Expander) (operands : List Value) (env : Environment)
    (w : World σ) : Except Error Value × World σ :=
  match r.arity.validate operands.length with
  | .error e => (.error e, w)
  | .ok () =>
    match r.expand? operands with
    | .some replacement => (replacement, w)
    | .none => (host.expander r.name operands env).run.run w

/-- What a native replies to its arguments. -/
def nativeReply (host : Host σ) (n : Native) (args : List Value) (w : World σ) :
    Except Error Reply × World σ :=
  match n with
  | .primitive p => (p.run args, w)
  | .host name => (host.native name args).run.run w

mutual

/-- The first stage: an expression becomes a tree. -/
inductive Resolves (host : Host σ) :
    Environment → Value → World σ → Except Fault Resolved → World σ → Prop
  | nilMarker {env : Environment} {w : World σ} :
      Resolves host env (.symbol Symbol.nilName) w (.ok (.value .nil)) w
  | truthMarker {env : Environment} {w : World σ} :
      Resolves host env (.symbol Symbol.truthName) w (.ok (.value .truth)) w
  | symbol {env : Environment} {name : String} {v : Value} {w : World σ} :
      name ≠ Symbol.nilName → name ≠ Symbol.truthName → w.scopes.get? env name = some v →
      Resolves host env (.symbol name) w (.ok (.value v)) w
  | unbound {env : Environment} {name : String} {w : World σ} :
      name ≠ Symbol.nilName → name ≠ Symbol.truthName → w.scopes.get? env name = Option.none →
      Resolves host env (.symbol name) w (.error (.unbound name)) w
  | empty {env : Environment} {w : World σ} :
      Resolves host env (.list []) w (.ok (.value .nil)) w
  | atom {env : Environment} {v : Value} {w : World σ} : v.IsAtom →
      Resolves host env v w (.ok (.value v)) w
  /-- An operator that is computed is called by the native itself, whatever its name is bound to. -/
  | computed {env : Environment} {operator : Value} {operands : List Value} {w w' : World σ}
      {r : Except Fault Resolved} : operator.IsComputed →
      Resolves host env (Library.apply Engine.callNative (operator :: operands)) w r w' →
      Resolves host env (Library.apply operator operands) w r w'
  | noOperator {env : Environment} {operator : Value} {operands : List Value} {w : World σ}
      {f : Fault} : ¬ operator.IsComputed → w.scopes.operator env operator = .error f →
      Resolves host env (Library.apply operator operands) w (.error f) w
  | expands {env : Environment} {operator e : Value} {operands : List Value} {x : Expander}
      {w w₁ w' : World σ} {r : Except Fault Resolved} :
      w.scopes.operator env operator = .ok (.expander x) →
      host.expansion x operands env w = (.ok e, w₁) → Resolves host env e w₁ r w' →
      Resolves host env (Library.apply operator operands) w r w'
  | expandsNot {env : Environment} {operator : Value} {operands : List Value} {x : Expander}
      {w w' : World σ} {e : Error} : w.scopes.operator env operator = .ok (.expander x) →
      host.expansion x operands env w = (.error e, w') →
      Resolves host env (Library.apply operator operands) w (.error e.fault) w'
  | form {env : Environment} {operator : Value} {operands : List Value} {f : Form}
      {w w' : World σ} {r : Except Fault Resolved} :
      w.scopes.operator env operator = .ok (.form f) → f.arity.Admits operands.length →
      Applies host f operands env w r w' →
      Resolves host env (Library.apply operator operands) w r w'
  | formArity {env : Environment} {operator : Value} {operands : List Value} {f : Form}
      {w : World σ} : w.scopes.operator env operator = .ok (.form f) →
      ¬ f.arity.Admits operands.length →
      Resolves host env (Library.apply operator operands) w
        (.error (.arity f.arity.bound operands.length)) w
  /-- The operator is looked up before any operand is resolved. -/
  | application {env : Environment} {operator : Value} {operands : List Value} {c : Callable}
      {w w' : World σ} {r : Except Fault (List Resolved)} :
      w.scopes.operator env operator = .ok c → c.IsFunction →
      ResolvesAll host env operands w r w' →
      Resolves host env (Library.apply operator operands) w
        (r.map fun ts => .application (.callable c) ts (Library.apply operator operands)) w'

/-- Operands are resolved from the last to the first, until one of them fails. -/
inductive ResolvesAll (host : Host σ) :
    Environment → List Value → World σ → Except Fault (List Resolved) → World σ → Prop
  | nil {env : Environment} {w : World σ} : ResolvesAll host env [] w (.ok []) w
  | cons {env : Environment} {e : Value} {es : List Value} {ts : List Resolved}
      {w w₁ w' : World σ} {r : Except Fault Resolved} : ResolvesAll host env es w (.ok ts) w₁ →
      Resolves host env e w₁ r w' → ResolvesAll host env (e :: es) w (r.map (· :: ts)) w'
  | fails {env : Environment} {e : Value} {es : List Value} {w w' : World σ} {f : Fault} :
      ResolvesAll host env es w (.error f) w' → ResolvesAll host env (e :: es) w (.error f) w'

/-- What a form makes of operands of which it accepts so many. A form that waits for the value of
its first operand resolves that one and no other. -/
inductive Applies (host : Host σ) :
    Form → List Value → Environment → World σ → Except Fault Resolved → World σ → Prop
  | quote {v : Value} {env : Environment} {w : World σ} :
      Applies host .quote [v] env w (.ok (.value v)) w
  | lambda {params : Value} {body : List Value} {env : Environment} {c : Closure}
      {w w' : World σ} : w.makeClosure params (Engine.bodyOf body) env = (.ok c, w') →
      Applies host .lambda (params :: body) env w (.ok (.value (.callable (.closure c)))) w'
  | lambdaFails {params : Value} {body : List Value} {env : Environment} {e : Error}
      {w w' : World σ} : w.makeClosure params (Engine.bodyOf body) env = (.error e, w') →
      Applies host .lambda (params :: body) env w (.error e.fault) w'
  | choice {c t : Value} {env : Environment} {w w' : World σ} {r : Except Fault Resolved} :
      Resolves host env c w r w' →
      Applies host .conditional [c, t] env w (r.map (.conditional env [c, t] t .nil)) w'
  | fullChoice {c t e : Value} {env : Environment} {w w' : World σ} {r : Except Fault Resolved} :
      Resolves host env c w r w' →
      Applies host .conditional [c, t, e] env w (r.map (.conditional env [c, t, e] t e)) w'
  | manyBranches {c t e e' : Value} {es : List Value} {env : Environment} {w : World σ} :
      Applies host .conditional (c :: t :: e :: e' :: es) env w
        (.error (.arity 3 (es.length + 4))) w
  | emptySequence {env : Environment} {w : World σ} :
      Applies host .sequence [] env w (.ok (.value .nil)) w
  | sequence {e : Value} {es : List Value} {env : Environment} {w w' : World σ}
      {r : Except Fault Resolved} : Resolves host env e w r w' →
      Applies host .sequence (e :: es) env w (r.map (.sequence env e es)) w'
  | noBindings {cap : BacktraceCap} {v : Value} {env : Environment} {w : World σ} {e : Error} :
      Binding.readAll v = .error e → Applies host (.exports cap) [v] env w (.error e.fault) w
  | exports {cap : BacktraceCap} {v : Value} {bindings : List Binding} {env : Environment}
      {w w' : World σ} {r : Except Fault Unit} : Binding.readAll v = .ok bindings →
      Declares host env.root bindings w r w' →
      Applies host (.exports cap) [v] env w (r.map fun _ => .value .truth) w'
  | hostFails {name : String} {operands : List Value} {env : Environment} {w w' : World σ}
      {e : Error} : (host.form name operands env).run.run w = (.error e, w') →
      Applies host (.host name) operands env w (.error e.fault) w'
  | hostValue {name : String} {operands : List Value} {env : Environment} {v : Value}
      {w w' : World σ} : (host.form name operands env).run.run w = (.ok (.value v), w') →
      Applies host (.host name) operands env w (.ok (.value v)) w'
  | hostStream {name : String} {operands : List Value} {env : Environment} {s : Stream}
      {w w' : World σ} {r : Except Fault Resolved} :
      (host.form name operands env).run.run w = (.ok (.stream s), w') → s.Renders r →
      Applies host (.host name) operands env w r w'
  | hostCompile {name : String} {operands : List Value} {env env' : Environment} {e : Value}
      {w w₁ w' : World σ} {r : Except Fault Resolved} :
      (host.form name operands env).run.run w = (.ok (.compile env' e), w₁) →
      Resolves host env' e w₁ r w' → Applies host (.host name) operands env w r w'

/-- Declarations bind one name after the other at the root, with the values of their expressions
there. -/
inductive Declares (host : Host σ) :
    Environment → List Binding → World σ → Except Fault Unit → World σ → Prop
  | nil {root : Environment} {w : World σ} : Declares host root [] w (.ok ()) w
  | noName {root : Environment} {b : Binding} {bs : List Binding} {w : World σ} {e : Error} :
      Engine.declaredName b.name = .error e → Declares host root (b :: bs) w (.error e.fault) w
  | defined {root : Environment} {b : Binding} {bs : List Binding} {name : String}
      {w : World σ} : Engine.declaredName b.name = .ok name →
      w.scopes.binds root name = true →
      Declares host root (b :: bs) w (.error (.alreadyDefined name)) w
  | fails {root : Environment} {b : Binding} {bs : List Binding} {name : String}
      {w w' : World σ} {f : Fault} : Engine.declaredName b.name = .ok name →
      w.scopes.binds root name = false → Direct host root b.init w (.error f) w' →
      Declares host root (b :: bs) w (.error f) w'
  | bindsNot {root : Environment} {b : Binding} {bs : List Binding} {name : String} {v : Value}
      {w w₁ w' : World σ} {e : Error} : Engine.declaredName b.name = .ok name →
      w.scopes.binds root name = false → Direct host root b.init w (.ok v) w₁ →
      w₁.bind root name v = (.error e, w') → Declares host root (b :: bs) w (.error e.fault) w'
  | cons {root : Environment} {b : Binding} {bs : List Binding} {name : String} {v : Value}
      {w w₁ w₂ w' : World σ} {r : Except Fault Unit} : Engine.declaredName b.name = .ok name →
      w.scopes.binds root name = false → Direct host root b.init w (.ok v) w₁ →
      w₁.bind root name v = (.ok (), w₂) → Declares host root bs w₂ r w' →
      Declares host root (b :: bs) w r w'

/-- The second stage: a tree is evaluated, its operands before its operation. -/
inductive Evaluates (host : Host σ) :
    Resolved → World σ → Except Fault Value → World σ → Prop
  | value {v : Value} {w : World σ} : Evaluates host (.value v) w (.ok v) w
  | application {operation : Operation} {operands : List Resolved} {origin : Value}
      {args : List Value} {w w₁ w' : World σ} {r : Except Fault Value} :
      EvaluatesAll host operands w (.ok args) w₁ → Operates host operation args w₁ r w' →
      Evaluates host (.application operation operands origin) w r w'
  | operandFails {operation : Operation} {operands : List Resolved} {origin : Value}
      {w w' : World σ} {f : Fault} : EvaluatesAll host operands w (.error f) w' →
      Evaluates host (.application operation operands origin) w (.error f) w'

/-- Operands are evaluated from the first to the last, until one of them fails. -/
inductive EvaluatesAll (host : Host σ) :
    List Resolved → World σ → Except Fault (List Value) → World σ → Prop
  | nil {w : World σ} : EvaluatesAll host [] w (.ok []) w
  | cons {t : Resolved} {ts : List Resolved} {v : Value} {w w₁ w' : World σ}
      {r : Except Fault (List Value)} : Evaluates host t w (.ok v) w₁ →
      EvaluatesAll host ts w₁ r w' → EvaluatesAll host (t :: ts) w (r.map (v :: ·)) w'
  | fails {t : Resolved} {ts : List Resolved} {w w' : World σ} {f : Fault} :
      Evaluates host t w (.error f) w' → EvaluatesAll host (t :: ts) w (.error f) w'

/-- An operation is performed on values: only now is a branch chosen and compiled, and only now
the next expression of a sequence. -/
inductive Operates (host : Host σ) :
    Operation → List Value → World σ → Except Fault Value → World σ → Prop
  | callable {c : Callable} {args : List Value} {w w' : World σ} {r : Except Fault Value} :
      Calls host c args w r w' → Operates host (.callable c) args w r w'
  | consequent {env : Environment} {t e : Value} {args : List Value} {w w' : World σ}
      {r : Except Fault Value} : args.head?.any Value.isTrue = true → Direct host env t w r w' →
      Operates host (.branch env t e) args w r w'
  | alternative {env : Environment} {t e : Value} {args : List Value} {w w' : World σ}
      {r : Except Fault Value} : args.head?.any Value.isTrue = false → Direct host env e w r w' →
      Operates host (.branch env t e) args w r w'
  | sequel {env : Environment} {next : Value} {args : List Value} {w w' : World σ}
      {r : Except Fault Value} : Direct host env next w r w' →
      Operates host (.sequel env next) args w r w'

/-- A callable is called with values. A closure's body is evaluated in a new scope inside the
closure's own. -/
inductive Calls (host : Host σ) :
    Callable → List Value → World σ → Except Fault Value → World σ → Prop
  | closure {c : Closure} {args : List Value} {scope : Environment} {scopes : Scopes}
      {w w' : World σ} {r : Except Fault Value} :
      w.scopes.openChild c.env (Table.ofEntries (c.arguments args)) = (scope, scopes) →
      Direct host scope c.body { w with scopes } r w' → Calls host (.closure c) args w r w'
  | form {f : Form} {args : List Value} {w : World σ} :
      Calls host (.form f) args w (.error (.illegalCall (Callable.form f).display)) w
  | expander {x : Expander} {args : List Value} {w : World σ} :
      Calls host (.expander x) args w (.error (.illegalCall (Callable.expander x).display)) w
  | nativeFails {n : Native} {args : List Value} {w w' : World σ} {e : Error} :
      host.nativeReply n args w = (.error e, w') → Calls host (.native n) args w (.error e.fault) w'
  | value {n : Native} {args : List Value} {v : Value} {w w' : World σ} :
      host.nativeReply n args w = (.ok (.answer (.value v)), w') →
      Calls host (.native n) args w (.ok v) w'
  | streamFails {n : Native} {args : List Value} {s : Stream} {f : Fault} {w w' : World σ} :
      host.nativeReply n args w = (.ok (.answer (.stream s)), w') → s.Renders (.error f) →
      Calls host (.native n) args w (.error f) w'
  | stream {n : Native} {args : List Value} {s : Stream} {t : Resolved} {w w₁ w' : World σ}
      {r : Except Fault Value} :
      host.nativeReply n args w = (.ok (.answer (.stream s)), w₁) → s.Renders (.ok t) →
      Evaluates host t w₁ r w' → Calls host (.native n) args w r w'
  | compile {n : Native} {args : List Value} {env : Environment} {e : Value} {w w₁ w' : World σ}
      {r : Except Fault Value} :
      host.nativeReply n args w = (.ok (.answer (.compile env e)), w₁) →
      Direct host env e w₁ r w' → Calls host (.native n) args w r w'
  | invoke {n : Native} {c : Callable} {args args' : List Value} {w w₁ w' : World σ}
      {r : Except Fault Value} : host.nativeReply n args w = (.ok (.invoke c args'), w₁) →
      Calls host c args' w₁ r w' → Calls host (.native n) args w r w'

/-- An expression is resolved and then evaluated. -/
inductive Direct (host : Host σ) :
    Environment → Value → World σ → Except Fault Value → World σ → Prop
  | fails {env : Environment} {e : Value} {f : Fault} {w w' : World σ} :
      Resolves host env e w (.error f) w' → Direct host env e w (.error f) w'
  | evaluates {env : Environment} {e : Value} {t : Resolved} {w w₁ w' : World σ}
      {r : Except Fault Value} : Resolves host env e w (.ok t) w₁ → Evaluates host t w₁ r w' →
      Direct host env e w r w'

end

variable {host : Host σ} {env : Environment} {w w' : World σ}

theorem ResolvesAll.length {es : List Value} {r : Except Fault (List Resolved)}
    {ts : List Resolved} (resolves : host.ResolvesAll env es w r w') (ok : r = .ok ts) :
    ts.length = es.length := by
  induction es generalizing w w' r ts with
  | nil =>
    cases resolves
    cases ok
    rfl
  | cons e es ih =>
    cases resolves with
    | cons all one =>
      rename_i r
      cases r with
      | ok t =>
        cases ok
        exact congrArg (· + 1) (ih all rfl)
      | error f => cases ok
    | fails => cases ok

theorem EvaluatesAll.length {ts : List Resolved} {r : Except Fault (List Value)}
    {vs : List Value} (evaluates : host.EvaluatesAll ts w r w') (ok : r = .ok vs) :
    vs.length = ts.length := by
  induction ts generalizing w w' r vs with
  | nil =>
    cases evaluates
    cases ok
    rfl
  | cons t ts ih =>
    cases evaluates with
    | cons one all =>
      rename_i r
      cases r with
      | ok vs =>
        cases ok
        exact congrArg (· + 1) (ih all rfl)
      | error f => cases ok
    | fails => cases ok

end Host

end CooperativeLisp

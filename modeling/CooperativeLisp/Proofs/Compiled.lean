import CooperativeLisp.Proofs.Direct
import CooperativeLisp.Proofs.Run

/-!
What compiling does, an expression at a time. The equations here hold of every engine and are the
same whether they are read from the engine to its result or back.
-/

namespace CooperativeLisp

variable {σ : Type}

namespace Stream.Renders

variable {s : Stream} {r : Except Fault Resolved} {env : Environment}

theorem choice {t e : Value} {operands : List Value} (renders : s.Renders r) :
    ((Engine.choice env t e operands).merge s).Renders
      (r.map (Resolved.conditional env operands t e)) := by
  cases r with
  | ok tree =>
    obtain ⟨whole, frames⟩ := renders
    refine ⟨whole, ?_⟩
    simp [merge, Engine.choice, pushCall, empty, frames, Resolved.conditional, Resolved.frames,
      Resolved.allFrames]
  | error f =>
    obtain ⟨failed, e, rest, frames, cause⟩ := renders
    exact ⟨failed, e, _, by rw [merge, frames, List.cons_append], cause⟩

theorem sequels_frames (origin : Value) (es : List Value) :
    (es.reverse.foldl (fun s e => s.pushCall (.sequel env e) 1 origin) empty) =
      ⟨es.map fun e => .call (.sequel env e) 1 origin, false⟩ := by
  induction es with
  | nil => rfl
  | cons e es ih =>
    rw [List.reverse_cons, List.foldl_append, ih]
    rfl

theorem sequence_frames (origin : Value) (es : List Value) (t : Resolved) :
    (es.foldl (fun t next => Resolved.application (.sequel env next) [t] origin) t).frames =
      t.frames ++ es.map fun e => .call (.sequel env e) 1 origin := by
  induction es generalizing t with
  | nil => simp
  | cons e es ih => simp [ih, Resolved.frames, Resolved.allFrames]

theorem sequence {first : Value} {rest : List Value} (renders : s.Renders r) :
    ((Engine.sequels env first rest).merge s).Renders
      (r.map (Resolved.sequence env first rest)) := by
  unfold Engine.sequels
  dsimp only
  rw [sequels_frames]
  cases r with
  | ok t =>
    obtain ⟨whole, frames⟩ := renders
    refine ⟨whole, ?_⟩
    unfold Resolved.sequence
    rw [sequence_frames, merge, frames]
  | error f =>
    obtain ⟨failed, e, rest, frames, cause⟩ := renders
    exact ⟨failed, e, _, by rw [merge, frames, List.cons_append], cause⟩

end Stream.Renders

/-- What an answer to an application shows of the tree that the application becomes. -/
def Outcome.Renders : Except Error Outcome → Except Fault Resolved → Prop
  | .error e, r => r = .error e.fault
  | .ok (.value v), r => r = .ok (.value v)
  | .ok (.stream s), r => s.Renders r

/-- What the answer of a form adds to the stream. -/
def Outcome.piece : Outcome → Piece
  | .value v => .value v
  | .stream s => .splice s

/-! ### Equations of a single compilation -/

namespace Engine

variable {g : Engine σ} {nested : Environment → Value → Effect σ Stream} {env : Environment}
variable {operator : Value} {operands : List Value} {w : World σ}

theorem lookup_run (env : Environment) (name : String) (w : World σ) :
    (lookup env name).run w = some (w.scopes.lookup env name, w) := rfl

theorem resolveOperator_run : (resolveOperator env operator).run w =
    some ((w.scopes.operator env operator).mapError Error.ofFault, w) := by
  cases operator with
  | symbol name =>
    have found := lookup_run env name w
    unfold Scopes.lookup at found
    cases bound : w.scopes.get? env name with
    | none =>
      simp only [bound] at found
      simp only [Scopes.operator, bound]
      exact Attempt.run_bind_error found
    | some v =>
      simp only [bound] at found
      simp only [Scopes.operator, bound]
      refine (Attempt.run_bind_ok found).trans ?_
      cases v <;> rfl
  | _ => rfl

theorem expand_run (g : Engine σ) (r : Expander) (operands : List Value) (env : Environment)
    (w : World σ) :
    (g.expand r operands env).run w = some (g.host.expansion r operands env w) := by
  have checked : (Attempt.ofExcept (r.arity.validate operands.length)).run w =
      some (r.arity.validate operands.length, w) := rfl
  unfold expand Host.expansion
  cases valid : r.arity.validate operands.length with
  | error e =>
    rw [valid] at checked
    exact Attempt.run_bind_error checked
  | ok _ =>
    rw [valid] at checked
    rw [Attempt.run_bind_ok checked]
    cases r.expand? operands <;> rfl

theorem applyForm_admitted {f : Form} (admitted : f.arity.Admits operands.length) :
    (g.applyForm nested f operands env).run = (g.formAnswer nested f operands env).run := by
  funext w
  have checked : (Attempt.ofExcept (f.arity.validate operands.length)).run w = some (.ok (), w) := by
    rw [Arity.validate_eq_ok_iff.mpr admitted]
    rfl
  exact Attempt.run_bind_ok checked

theorem applyForm_refused {f : Form} (refused : ¬ f.arity.Admits operands.length) :
    (g.applyForm nested f operands env).run w =
      some (.error (.ofFault (.arity f.arity.bound operands.length)), w) := by
  refine Attempt.run_bind_error ?_
  unfold Arity.validate
  rw [if_neg refused]
  rfl

theorem compileApplication_expander {r : Expander} :
    (g.compileApplication nested env operands (.expander r)).run w =
      some ((g.host.expansion r operands env w).1.map .instead,
        (g.host.expansion r operands env w).2) := by
  have expanded := g.expand_run r operands env w
  generalize g.host.expansion r operands env w = answer at expanded
  obtain ⟨answer | e, w'⟩ := answer
  · exact Attempt.run_bind_error expanded
  · exact Attempt.run_bind_ok expanded

theorem compileApplication_form {f : Form} :
    (g.compileApplication nested env operands (.form f)).run =
      (g.applyForm nested f operands env).run >>= fun answer => pure (answer.map Outcome.piece) := by
  refine congrArg ((g.applyForm nested f operands env).run >>= ·) (funext fun answer => ?_)
  cases answer with
  | error e => rfl
  | ok outcome => cases outcome <;> rfl

theorem compileApplication_function {c : Callable} (function : c.IsFunction) :
    (g.compileApplication nested env operands c).run w =
      some (.ok (.application c operands), w) := by
  cases c with
  | form f => exact function.elim
  | expander r => exact function.elim
  | native n => rfl
  | closure c => rfl

theorem compileOne_computed (computed : operator.IsComputed) :
    (g.compileOne nested env (Library.apply operator operands)).run w =
      some (.ok (.instead (Library.apply callNative (operator :: operands))), w) := by
  obtain ⟨first, rest, rfl⟩ := computed
  rfl

theorem compileOne_plain (plain : ¬ operator.IsComputed) :
    (g.compileOne nested env (Library.apply operator operands)).run =
      (resolveOperator env operator >>= g.compileApplication nested env operands).run := by
  cases operator with
  | list items =>
    cases items with
    | nil => rfl
    | cons first rest => exact absurd ⟨first, rest, rfl⟩ plain
  | _ => rfl

theorem compileOne_operator {c : Callable} (resolved : w.scopes.operator env operator = .ok c) :
    (g.compileOne nested env (Library.apply operator operands)).run w =
      (g.compileApplication nested env operands c).run w := by
  have plain : ¬ operator.IsComputed := by
    rintro ⟨first, rest, rfl⟩
    cases resolved
  rw [compileOne_plain plain]
  refine Attempt.run_bind_ok ?_
  rw [resolveOperator_run, resolved]
  rfl

theorem compileOne_noOperator {f : Fault} (plain : ¬ operator.IsComputed)
    (unresolved : w.scopes.operator env operator = .error f) :
    (g.compileOne nested env (Library.apply operator operands)).run w =
      some (.error (.ofFault f), w) := by
  rw [compileOne_plain plain]
  refine Attempt.run_bind_error ?_
  rw [resolveOperator_run, unresolved]
  rfl

theorem compileOne_atom {v : Value} (atom : v.IsAtom) :
    (g.compileOne nested env v).run w = some (.ok (.value v), w) := by
  cases v with
  | symbol name => exact atom.elim
  | list items => exact atom.elim
  | _ => rfl

theorem compileOne_symbol {name : String} (notNil : name ≠ Symbol.nilName)
    (notTruth : name ≠ Symbol.truthName) :
    (g.compileOne nested env (.symbol name)).run w =
      some ((w.scopes.lookup env name).map .value, w) := by
  unfold compileOne
  simp only [beq_iff_eq, notNil, notTruth, if_false]
  have found := lookup_run env name w
  cases bound : w.scopes.lookup env name with
  | error e =>
    rw [bound] at found
    exact Attempt.run_bind_error found
  | ok v =>
    rw [bound] at found
    exact Attempt.run_bind_ok found

/-- What compiling a piece leads to, with so many rounds left. -/
def placed (g : Engine σ) (env : Environment) (e : Value) (pending : List Value) (s : Stream)
    (piece : Except Error Piece) (rounds : Nat) : Effect σ Stream :=
  match piece with
  | .error error => return s.pushError (error.withOrigin e)
  | .ok (.value v) => g.compileOnto rounds env pending (s.pushValue v)
  | .ok (.splice more) =>
    if more.failed then return s.merge more else g.compileOnto rounds env pending (s.merge more)
  | .ok (.instead e) => g.compileOnto rounds env (e :: pending) s
  | .ok (.application c operands) =>
    g.compileOnto rounds env (operands.reverse ++ pending)
      (s.pushCall (.callable c) operands.length e)

theorem Below.placed {g h : Engine σ} (below : g.Below h) (env : Environment) (e : Value)
    (pending : List Value) (s : Stream) (piece : Except Error Piece) {n k : Nat} (less : n ≤ k) :
    (g.placed env e pending s piece n).Below (h.placed env e pending s piece k) := by
  unfold Engine.placed
  split
  case h_3 =>
    split
    · exact .refl _
    · exact below.compileOnto less ..
  case h_1 => exact .refl _
  all_goals exact below.compileOnto less ..

theorem compileOnto_succ (g : Engine σ) (rounds : Nat) (env : Environment) (e : Value)
    (pending : List Value) (s : Stream) :
    g.compileOnto (rounds + 1) env (e :: pending) s =
      (g.compileOne (fun env e => g.compileOnto rounds env [e] .empty) env e).run >>= fun piece =>
        g.placed env e pending s piece rounds := rfl

/-! ### Equations of the forms -/

theorem formAnswer_compileBefore {e : Value} {waiting : Stream} :
    (do return .stream (← compileBefore nested env e waiting) : Attempt σ Outcome).run =
      nested env e >>= fun s => pure (.ok (.stream (waiting.merge s))) := by
  simp only [compileBefore, ExceptT.run_bind, Attempt.run_lift, bind_assoc, pure_bind]
  rfl

theorem formAnswer_lambda {params : Value} {body : List Value} :
    (g.formAnswer nested .lambda (params :: body) env).run w =
      some ((w.makeClosure params (bodyOf body) env).1.map fun c =>
          .value (.callable (.closure c)),
        (w.makeClosure params (bodyOf body) env).2) := by
  have made : (makeClosure env params body).run w = some
      ((w.makeClosure params (bodyOf body) env).1.map fun c => .callable (.closure c),
        (w.makeClosure params (bodyOf body) env).2) := by
    unfold makeClosure
    cases closure : w.makeClosure params (bodyOf body) env with
    | mk answer w' =>
      have ran : (ExceptT.mk fun w => some (w.makeClosure params (bodyOf body) env) :
          Attempt σ Closure).run w = some (answer, w') := congrArg some closure
      cases answer with
      | error e => exact Attempt.run_bind_error ran
      | ok c => exact Attempt.run_bind_ok ran
  cases closure : (w.makeClosure params (bodyOf body) env).1 with
  | error e =>
    rw [closure] at made
    exact Attempt.run_bind_error made
  | ok c =>
    rw [closure] at made
    exact Attempt.run_bind_ok made

theorem formAnswer_noBindings {cap : BacktraceCap} {v : Value} {e : Error}
    (read : Binding.readAll v = .error e) :
    (g.formAnswer nested (.exports cap) [v] env).run w = some (.error e, w) :=
  Attempt.run_bind_error (Attempt.run_ofExcept read)

theorem formAnswer_exports {cap : BacktraceCap} {v : Value} {bindings : List Binding}
    (read : Binding.readAll v = .ok bindings) :
    (g.formAnswer nested (.exports cap) [v] env).run =
      (g.declare env.root cap bindings).run >>= fun answer => pure (answer.map .value) := by
  have declares : (g.formAnswer nested (.exports cap) [v] env).run =
      (do return .value (← g.declare env.root cap bindings) : Attempt σ Outcome).run :=
    funext fun w => Attempt.run_bind_ok (Attempt.run_ofExcept read)
  rw [declares]
  refine congrArg ((g.declare env.root cap bindings).run >>= ·) (funext fun answer => ?_)
  cases answer <;> rfl

section Host

variable {name : String} {w' : World σ}

theorem formAnswer_hostFails {e : Error}
    (answer : (g.host.form name operands env).run.run w = (.error e, w')) :
    (g.formAnswer nested (.host name) operands env).run w = some (.error e, w') :=
  Attempt.run_bind_error (Attempt.run_ofHost answer)

theorem formAnswer_hostValue {v : Value}
    (answer : (g.host.form name operands env).run.run w = (.ok (.value v), w')) :
    (g.formAnswer nested (.host name) operands env).run w = some (.ok (.value v), w') :=
  Attempt.run_bind_ok (Attempt.run_ofHost answer)

theorem formAnswer_hostStream {s : Stream}
    (answer : (g.host.form name operands env).run.run w = (.ok (.stream s), w')) :
    (g.formAnswer nested (.host name) operands env).run w = some (.ok (.stream s), w') :=
  Attempt.run_bind_ok (Attempt.run_ofHost answer)

theorem formAnswer_hostCompile {env' : Environment} {e : Value}
    (answer : (g.host.form name operands env).run.run w = (.ok (.compile env' e), w')) :
    (g.formAnswer nested (.host name) operands env).run w =
      (nested env' e >>= fun s => pure (.ok (.stream s))) w' := by
  refine (Attempt.run_bind_ok (Attempt.run_ofHost answer)).trans ?_
  exact congrFun Attempt.run_lift_map w'

end Host

/-! ### Equations of declarations -/

section Declarations

variable {root : Environment} {cap : BacktraceCap} {b : Binding} {bs : List Binding}

/-- What follows on the value of a declared name. -/
def declareRest (g : Engine σ) (root : Environment) (cap : BacktraceCap) (name : String)
    (bs : List Binding) (v : Value) : Attempt σ Value := do
  ExceptT.mk fun w => some (w.bind root name v)
  g.declare root cap bs

theorem declare_noName {e : Error} (named : declaredName b.name = .error e) :
    (g.declare root cap (b :: bs)).run w = some (.error e, w) :=
  Attempt.run_bind_error (Attempt.run_ofExcept named)

theorem declare_defined {name : String} (named : declaredName b.name = .ok name)
    (bound : w.scopes.binds root name = true) :
    (g.declare root cap (b :: bs)).run w = some (.error (.ofFault (.alreadyDefined name)), w) := by
  refine (Attempt.run_bind_ok (Attempt.run_ofExcept named)).trans ?_
  refine (Attempt.run_bind_ok rfl).trans ?_
  rw [if_pos bound]
  rfl

theorem declare_fresh {name : String} (named : declaredName b.name = .ok name)
    (fresh : w.scopes.binds root name = false) :
    (g.declare root cap (b :: bs)).run w =
      (Attempt.ofEffect (g.evaluate root b.init cap) >>= g.declareRest root cap name bs).run w := by
  refine (Attempt.run_bind_ok (Attempt.run_ofExcept named)).trans ?_
  refine (Attempt.run_bind_ok rfl).trans ?_
  rw [if_neg (by rw [fresh]; exact Bool.false_ne_true)]
  rfl

theorem declareRest_bound {name : String} {v : Value} {w₁ : World σ}
    (bound : w.bind root name v = (.ok (), w₁)) :
    (g.declareRest root cap name bs v).run w = (g.declare root cap bs).run w₁ :=
  Attempt.run_bind_ok (x := ExceptT.mk fun w => some (w.bind root name v)) (congrArg some bound)

theorem declareRest_refused {name : String} {v : Value} {e : Error} {w₁ : World σ}
    (refused : w.bind root name v = (.error e, w₁)) :
    (g.declareRest root cap name bs v).run w = some (.error e, w₁) :=
  Attempt.run_bind_error (x := ExceptT.mk fun w => some (w.bind root name v)) (congrArg some refused)

end Declarations

/-! ### Equations of invocations -/

section Invocations

variable {args : List Value} {w' : World σ}

/-- What the reply to an invocation leads to, with so many rounds left. -/
def handle (g : Engine σ) (rounds : Nat) : Except Error Reply → Effect σ (Except Error Outcome)
  | .error e => return .error e
  | .ok (.answer (.value v)) => return .ok (.value v)
  | .ok (.answer (.stream s)) => return .ok (.stream s)
  | .ok (.answer (.compile env e)) => do return .ok (.stream (← g.compile env e))
  | .ok (.invoke c args) => (g.invokeWithin rounds c args).run

theorem invokeWithin_succ (g : Engine σ) (rounds : Nat) (c : Callable) (args : List Value) :
    (g.invokeWithin (rounds + 1) c args).run = (g.reply c args).run >>= g.handle rounds := by
  refine congrArg ((g.reply c args).run >>= ·) (funext fun answer => ?_)
  obtain e | reply := answer
  · rfl
  · obtain ⟨v | s | ⟨env, e⟩⟩ | ⟨c, args⟩ := reply
    · rfl
    · rfl
    · exact Attempt.run_lift_map
    · rfl

theorem Below.handle {g h : Engine σ} (below : g.Below h) {n k : Nat} (less : n ≤ k)
    (reply : Except Error Reply) : (g.handle n reply).Below (h.handle k reply) := by
  unfold Engine.handle
  split
  case h_4 => exact (below.compile ..).bind fun _ => .refl _
  case h_5 => exact below.invokeWithin less ..
  all_goals exact .refl _

theorem reply_native (n : Native) :
    (g.reply (.native n) args).run w = some (g.host.nativeReply n args w) := by
  cases n <;> rfl

theorem reply_closure {c : Closure} {scope : Environment} {scopes : Scopes}
    (opened : w.scopes.openChild c.env (Table.ofEntries (c.arguments args)) = (scope, scopes)) :
    (g.reply (.closure c) args).run w =
      some (.ok (.answer (.compile scope c.body)), { w with scopes }) := by
  cases opened
  rfl

end Invocations

end Engine

end CooperativeLisp

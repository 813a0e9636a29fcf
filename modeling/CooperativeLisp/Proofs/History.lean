import CooperativeLisp.Proofs.Placed
import CooperativeLisp.Proofs.Written

/-!
What happens in the course of a compilation or of a run. A declaring form evaluates expressions to
their end while it is itself being compiled, and those may hold declaring forms in their turn, at any
depth. Main statements: whatever an engine does is on record; from any moment to a later one the
scopes keep what they bind; no two declarations have bound the same name at a root, and one that
succeeds has bound all of its names by itself.
-/

namespace CooperativeLisp

open List (Forall₂)
open scoped List

variable {σ : Type}

/-- A run of a declaring form: where it declares, the names it was to bind, those that it has bound
by itself, and whether it ended in success. -/
structure Declaration where
  root : ScopeId
  names : List String
  bound : List String
  succeeded : Bool

namespace Declaration

/-- The names of bindings, as far as they have one that may be declared. -/
def namesOf (bs : List Binding) : List String :=
  bs.filterMap fun b => (Engine.declaredName b.name).toOption

/-- A run that has bound all its names. -/
def success (root : Environment) (bound : List String) : Declaration :=
  ⟨root.scope, bound, bound, true⟩

/-- A run that fails with these bindings left. -/
def failure (root : Environment) (bound : List String) (left : List Binding) : Declaration :=
  ⟨root.scope, bound ++ namesOf left, bound, false⟩

/-- What a run has bound, with the scope. -/
def written (d : Declaration) : List (ScopeId × String) :=
  d.bound.map (d.root, ·)

end Declaration

/-- What is put on record. -/
inductive Event where
  /-- The scopes, whenever a scope may have been opened or a name bound. -/
  | moment (scopes : Scopes)
  /-- A declaration that ends. -/
  | declaration (d : Declaration)

namespace Event

def moment? : Event → Option Scopes
  | moment scopes => some scopes
  | declaration _ => none

def declaration? : Event → Option Declaration
  | moment _ => none
  | declaration d => some d

end Event

/-- The moments on record, the first one first. -/
def momentsOf (log : List Event) : List Scopes :=
  log.filterMap Event.moment?

/-- The declarations on record, in the order in which they end. -/
def declarationsOf (log : List Event) : List Declaration :=
  log.filterMap Event.declaration?

theorem momentsOf_append (log more : List Event) :
    momentsOf (log ++ more) = momentsOf log ++ momentsOf more :=
  List.filterMap_append

section Declarations

variable (log more : List Event)

@[simp]
theorem declarationsOf_nil : declarationsOf [] = [] := rfl

@[simp]
theorem declarationsOf_moment (scopes : Scopes) :
    declarationsOf (.moment scopes :: log) = declarationsOf log := rfl

@[simp]
theorem declarationsOf_declaration (d : Declaration) :
    declarationsOf (.declaration d :: log) = d :: declarationsOf log := rfl

@[simp]
theorem declarationsOf_append :
    declarationsOf (log ++ more) = declarationsOf log ++ declarationsOf more :=
  List.filterMap_append

end Declarations

/-- What an engine may be at, as far as names can be bound in its course. -/
inductive Work where
  | idle
  | expressions (env : Environment) (es : List Value)
  /-- The bindings that are left of a declaration, with the names that it has bound already. -/
  | declaring (root : Environment) (cap : BacktraceCap) (bound : List String) (bs : List Binding)
  | evaluating (env : Environment) (e : Value) (cap : BacktraceCap)
  /-- A run, from one point to another. -/
  | running (start stop : Advance)
  | calling (c : Callable) (args : List Value)

namespace Work

/-- What is left to compile of a work list, once its first expression has led to a piece. -/
def further (env : Environment) (pending : List Value) : Except Error Piece → Work
  | .error _ => idle
  | .ok (.value _) => expressions env pending
  | .ok (.splice more) => if more.failed then idle else expressions env pending
  | .ok (.instead e) => expressions env (e :: pending)
  | .ok (.application _ operands) => expressions env (operands.reverse ++ pending)

theorem further_splice (env : Environment) (pending : List Value) (more : Stream) :
    further env pending (.ok (.splice more)) =
      if more.failed then idle else expressions env pending := rfl

/-- What performing an operation comes to. -/
def performing : Operation → List Value → Work
  | .callable c, args => calling c args
  | .branch env t e, args => expressions env [if args.head?.any Value.isTrue then t else e]
  | .sequel env next, _ => expressions env [next]

/-- What the reply to an invocation leads to. -/
def replied : Except Error Reply → Work
  | .ok (.answer (.compile env e)) => expressions env [e]
  | .ok (.invoke c args) => calling c args
  | _ => idle

end Work

namespace Host

/-- What a form compiles or declares before it answers. -/
def insideForm (host : Host σ) (f : Form) (operands : List Value) (env : Environment)
    (w : World σ) : Option (Work × World σ) :=
  match f, operands with
  | .conditional, [c, _] | .conditional, [c, _, _] => some (.expressions env [c], w)
  | .sequence, first :: _ => some (.expressions env [first], w)
  | .exports cap, [v] =>
    match Binding.readAll v with
    | .ok bs => some (.declaring env.root cap [] bs, w)
    | .error _ => Option.none
  | .host name, operands =>
    match (host.form name operands env).run.run w with
    | (.ok (.compile env' e), w') => some (.expressions env' [e], w')
    | _ => Option.none
  | _, _ => Option.none

/-- What compiling an expression compiles or declares before it leads to a piece. Only applications
of forms do so. -/
def inside (host : Host σ) (env : Environment) (e : Value) (w : World σ) :
    Option (Work × World σ) :=
  match e with
  | .list (operator :: operands) =>
    match w.scopes.operator env operator with
    | .ok (.form f) =>
      if f.arity.Admits operands.length then host.insideForm f operands env w else Option.none
    | _ => Option.none
  | _ => Option.none

/-- What happens in the course of some work. -/
inductive Records (host : Host σ) : Work → World σ → List Event → World σ → Prop
  | idle {w : World σ} : Records host .idle w [] w
  | nil {env : Environment} {w : World σ} : Records host (.expressions env []) w [] w
  | plain {env : Environment} {e : Value} {pending : List Value} {piece : Except Error Piece}
      {log : List Event} {w w₁ w' : World σ} : host.inside env e w = Option.none →
      host.Pieces env e w piece w₁ → Records host (.further env pending piece) w₁ log w' →
      Records host (.expressions env (e :: pending)) w (.moment w₁.scopes :: log) w'
  | nested {env : Environment} {e : Value} {pending : List Value} {piece : Except Error Piece}
      {work : Work} {log more : List Event} {w w₁ w₂ w' : World σ} :
      host.inside env e w = some (work, w₁) → Records host work w₁ log w₂ →
      host.Pieces env e w piece w₂ → Records host (.further env pending piece) w₂ more w' →
      Records host (.expressions env (e :: pending)) w (.moment w₁.scopes :: log ++ more) w'
  | declared {root : Environment} {cap : BacktraceCap} {bound : List String} {w : World σ} :
      Records host (.declaring root cap bound []) w [.declaration (.success root bound)] w
  | misnamed {root : Environment} {cap : BacktraceCap} {bound : List String} {b : Binding}
      {bs : List Binding} {e : Error} {w : World σ} : Engine.declaredName b.name = .error e →
      Records host (.declaring root cap bound (b :: bs)) w
        [.declaration (.failure root bound (b :: bs))] w
  | defined {root : Environment} {cap : BacktraceCap} {bound : List String} {b : Binding}
      {bs : List Binding} {name : String} {w : World σ} :
      Engine.declaredName b.name = .ok name → w.scopes.binds root name = true →
      Records host (.declaring root cap bound (b :: bs)) w
        [.declaration (.failure root bound (b :: bs))] w
  | fails {root : Environment} {cap : BacktraceCap} {bound : List String} {b : Binding}
      {bs : List Binding} {name : String} {e : Error} {log : List Event} {w w' : World σ} :
      Engine.declaredName b.name = .ok name → w.scopes.binds root name = false →
      Records host (.evaluating root b.init cap) w log w' →
      host.Answers (·.evaluateOnce root b.init cap) w (.error e) w' →
      Records host (.declaring root cap bound (b :: bs)) w
        (log ++ [.declaration (.failure root bound (b :: bs))]) w'
  | refused {root : Environment} {cap : BacktraceCap} {bound : List String} {b : Binding}
      {bs : List Binding} {name : String} {v : Value} {e : Error} {log : List Event}
      {w w₁ w' : World σ} :
      Engine.declaredName b.name = .ok name → w.scopes.binds root name = false →
      Records host (.evaluating root b.init cap) w log w₁ →
      host.Answers (·.evaluateOnce root b.init cap) w (.ok v) w₁ →
      w₁.bind root name v = (.error e, w') →
      Records host (.declaring root cap bound (b :: bs)) w
        (log ++ [.declaration (.failure root bound (b :: bs))]) w'
  | binds {root : Environment} {cap : BacktraceCap} {bound : List String} {b : Binding}
      {bs : List Binding} {name : String} {v : Value} {log more : List Event}
      {w w₁ w₂ w' : World σ} :
      Engine.declaredName b.name = .ok name → w.scopes.binds root name = false →
      Records host (.evaluating root b.init cap) w log w₁ →
      host.Answers (·.evaluateOnce root b.init cap) w (.ok v) w₁ →
      w₁.bind root name v = (.ok (), w₂) →
      Records host (.declaring root cap (bound ++ [name]) bs) w₂ more w' →
      Records host (.declaring root cap bound (b :: bs)) w (log ++ .moment w₂.scopes :: more) w'
  | evaluating {env : Environment} {e : Value} {cap : BacktraceCap} {s : Stream}
      {r : Except Error Value} {log more : List Event} {w w₁ w' : World σ} :
      Records host (.expressions env [e]) w log w₁ → host.Answers (·.compile env e) w s w₁ →
      Records host (.running (.pending (.start s cap)) (.done r)) w₁ more w' →
      Records host (.evaluating env e cap) w (log ++ more) w'
  | arrived {a : Advance} {w : World σ} : Records host (.running a a) w [] w
  | plainStep {m : Machine} {a b : Advance} {log : List Event} {w w' : World σ} :
      m.invocation? = Option.none → host.Steps m w a w → Records host (.running a b) w log w' →
      Records host (.running (.pending m) b) w log w'
  | step {m : Machine} {i : Invocation} {a b : Advance} {log more : List Event}
      {w w₁ w' : World σ} : m.invocation? = some i →
      Records host (.performing i.operation i.args) w log w₁ → host.Steps m w a w₁ →
      Records host (.running a b) w₁ more w' →
      Records host (.running (.pending m) b) w (log ++ more) w'
  | calling {c : Callable} {args : List Value} {r : Except Error Reply} {log : List Event}
      {w w₁ w' : World σ} : host.Answers (fun g => (g.reply c args).run) w r w₁ →
      Records host (.replied r) w₁ log w' →
      Records host (.calling c args) w (.moment w₁.scopes :: log) w'

end Host

/-! ### Every run has a record -/

/-- An engine of the host whose nested evaluations are on record. -/
structure Engine.Recorded (host : Host σ) (g : Engine σ) : Prop where
  own : ∃ fuel, g = .withFuel host fuel
  evaluates : ∀ {env e cap w r w'}, g.evaluate env e cap w = some (r, w') →
    host.Answers (·.evaluateOnce env e cap) w r w' ∧
      ∃ log, host.Records (.evaluating env e cap) w log w'

namespace Engine.Recorded

variable {host : Host σ} {g : Engine σ} {env : Environment} {w w' w₁ : World σ}

theorem answers {α : Type} {f : Engine σ → Effect σ α} {a : α} (recorded : g.Recorded host)
    (run : f g w = some (a, w')) : host.Answers f w a w' := by
  obtain ⟨fuel, rfl⟩ := recorded.own
  exact ⟨fuel, run⟩

theorem host_eq (recorded : g.Recorded host) : g.host = host := by
  obtain ⟨fuel, rfl⟩ := recorded.own
  exact Engine.withFuel_host host fuel

theorem declare (recorded : g.Recorded host) {root : Environment} {cap : BacktraceCap}
    {bound : List String} {bs : List Binding} {r : Except Error Value}
    (run : (g.declare root cap bs).run w = some (r, w')) :
    ∃ log, host.Records (.declaring root cap bound bs) w log w' := by
  induction bs generalizing bound w with
  | nil =>
    cases run
    exact ⟨_, .declared⟩
  | cons b bs ih =>
    cases named : declaredName b.name with
    | error e =>
      cases (declare_noName named).symm.trans run
      exact ⟨_, .misnamed named⟩
    | ok name =>
      cases free : w.scopes.binds root name with
      | true =>
        cases (declare_defined named free).symm.trans run
        exact ⟨_, .defined named free⟩
      | false =>
        rcases Attempt.run_bind.mp ((declare_fresh named free).symm.trans run) with
          ⟨v, w₁, evaluated, rest⟩ | ⟨e, evaluated, -⟩
        · obtain ⟨answers, log, records⟩ := recorded.evaluates evaluated
          cases bind : w₁.bind root name v with
          | mk result w₂ =>
            cases result with
            | error e =>
              cases (declareRest_refused bind).symm.trans rest
              exact ⟨_, .refused named free records answers bind⟩
            | ok _ =>
              obtain ⟨more, further⟩ := ih ((declareRest_bound bind).symm.trans rest)
              exact ⟨_, .binds named free records answers bind further⟩
        · obtain ⟨answers, log, records⟩ := recorded.evaluates evaluated
          exact ⟨_, .fails named free records answers⟩

variable {nested : Environment → Value → Effect σ Stream} {e : Value} {work : Work}

theorem insideForm (recorded : g.Recorded host)
    (inner : ∀ {env e w s w'}, nested env e w = some (s, w') →
      ∃ log, host.Records (.expressions env [e]) w log w')
    {f : Form} {operands : List Value} {r : Except Error Outcome}
    (inside : host.insideForm f operands env w = some (work, w₁))
    (run : (g.formAnswer nested f operands env).run w = some (r, w')) :
    ∃ log, host.Records work w₁ log w' := by
  have compiled : ∀ {c waiting}, (do return .stream (← compileBefore nested env c waiting) :
      Attempt σ Outcome).run w = some (r, w') → ∃ log, host.Records (.expressions env [c]) w log w' := by
    intro c waiting run
    rw [formAnswer_compileBefore] at run
    obtain ⟨s, nested, -⟩ := Effect.map_eq_some.mp run
    exact inner nested
  unfold Host.insideForm at inside
  split at inside
  · cases inside
    exact compiled run
  · cases inside
    exact compiled run
  · cases inside
    exact compiled run
  · rename_i cap v
    split at inside
    · rename_i bs read
      cases inside
      rw [formAnswer_exports read] at run
      obtain ⟨answer, declares, -⟩ := Effect.map_eq_some.mp run
      exact recorded.declare declares
    · cases inside
  · rename_i name
    split at inside
    · rename_i env' e w₂ answer
      cases inside
      rw [formAnswer_hostCompile (recorded.host_eq ▸ answer)] at run
      obtain ⟨s, nested, -⟩ := Effect.map_eq_some.mp run
      exact inner nested
    · cases inside
  · cases inside

theorem inside (recorded : g.Recorded host)
    (inner : ∀ {env e w s w'}, nested env e w = some (s, w') →
      ∃ log, host.Records (.expressions env [e]) w log w')
    {piece : Except Error Piece} (inside : host.inside env e w = some (work, w₁))
    (run : (g.compileOne nested env e).run w = some (piece, w')) :
    ∃ log, host.Records work w₁ log w' := by
  unfold Host.inside at inside
  split at inside
  · rename_i operator operands
    split at inside
    · rename_i f resolved
      split at inside
      · rename_i admitted
        have applied := (compileOne_operator resolved).symm.trans run
        rw [compileApplication_form, applyForm_admitted admitted] at applied
        obtain ⟨answer, answered, -⟩ := Effect.map_eq_some.mp applied
        exact recorded.insideForm inner inside answered
      · cases inside
    · cases inside
  · cases inside

/-- The declarations in the course of a compilation are on record. -/
theorem compileOnto (recorded : g.Recorded host) {rounds : Nat} {es : List Value} {s s' : Stream}
    (run : g.compileOnto rounds env es s w = some (s', w')) :
    ∃ log, host.Records (.expressions env es) w log w' := by
  induction rounds generalizing env es s s' w w' with
  | zero => cases run
  | succ rounds ih =>
    cases es with
    | nil =>
      cases run
      exact ⟨[], .nil⟩
    | cons e pending =>
      rw [compileOnto_succ] at run
      obtain ⟨piece, w₁, first, rest⟩ := Effect.bind_eq_some.mp run
      have pieces : host.Pieces env e w piece w₁ := by
        obtain ⟨fuel, rfl⟩ := recorded.own
        exact .of_rounds (f := fun n g =>
            (g.compileOne (fun env e => g.compileOnto n env [e] .empty) env e).run)
          (fun less below => below.compileOne (fun env e => below.compileOnto less env [e] .empty) env e)
          first
      have further : ∃ log, host.Records (.further env pending piece) w₁ log w' := by
        cases piece with
        | error e =>
          cases rest
          exact ⟨[], .idle⟩
        | ok piece =>
          cases piece with
          | value v => exact ih rest
          | splice more =>
            have next := Work.further_splice env pending more
            unfold Engine.placed at rest
            dsimp only at rest
            split at rest
            · rename_i failed
              cases rest
              rw [next, if_pos failed]
              exact ⟨[], .idle⟩
            · rename_i whole
              rw [next, if_neg whole]
              exact ih rest
          | «instead» e => exact ih rest
          | application c operands => exact ih rest
      obtain ⟨more, further⟩ := further
      cases inside : host.inside env e w with
      | none => exact ⟨_, .plain inside pieces further⟩
      | some start =>
        obtain ⟨work, w₂⟩ := start
        obtain ⟨log, records⟩ := recorded.inside ih inside first
        exact ⟨_, .nested inside records pieces further⟩

theorem replied (recorded : g.Recorded host) {rounds : Nat}
    (invokes : ∀ {c args w r w'}, (g.invokeWithin rounds c args).run w = some (r, w') →
      ∃ log, host.Records (.calling c args) w log w')
    {reply : Except Error Reply} {r : Except Error Outcome}
    (run : g.handle rounds reply w = some (r, w')) :
    ∃ log, host.Records (.replied reply) w log w' := by
  cases reply with
  | error e =>
    cases run
    exact ⟨[], .idle⟩
  | ok reply =>
    cases reply with
    | invoke c args => exact invokes run
    | answer answer =>
      cases answer with
      | value v =>
        cases run
        exact ⟨[], .idle⟩
      | stream s =>
        cases run
        exact ⟨[], .idle⟩
      | compile env e =>
        obtain ⟨s, compiled, -⟩ := Effect.map_eq_some.mp run
        exact recorded.compileOnto compiled

theorem invokeWithin (recorded : g.Recorded host) {rounds : Nat} {c : Callable}
    {args : List Value} {r : Except Error Outcome}
    (run : (g.invokeWithin rounds c args).run w = some (r, w')) :
    ∃ log, host.Records (.calling c args) w log w' := by
  induction rounds generalizing c args w r w' with
  | zero => cases run
  | succ rounds ih =>
    rw [invokeWithin_succ] at run
    obtain ⟨reply, w₁, replies, rest⟩ := Effect.bind_eq_some.mp run
    obtain ⟨log, records⟩ := recorded.replied ih rest
    exact ⟨_, .calling (recorded.answers replies) records⟩

theorem perform (recorded : g.Recorded host) {o : Operation} {args : List Value}
    {r : Except Error Outcome} (run : (g.perform o args).run w = some (r, w')) :
    ∃ log, host.Records (.performing o args) w log w' := by
  have compiled : ∀ {env e}, (do return .stream (← g.compile env e) : Attempt σ Outcome).run w =
      some (r, w') → ∃ log, host.Records (.expressions env [e]) w log w' := by
    intro env e run
    rw [Attempt.run_lift_map] at run
    obtain ⟨s, compiled, -⟩ := Effect.map_eq_some.mp run
    exact recorded.compileOnto compiled
  cases o with
  | callable c => exact recorded.invokeWithin run
  | branch env t e => exact compiled run
  | sequel env next => exact compiled run

/-- A frame leads on with what its invocation puts on record, and no other frame changes the
world. -/
theorem step (recorded : g.Recorded host) {m : Machine} {a b : Advance} {more : List Event}
    (run : g.step m w = some (a, w₁)) (further : host.Records (.running a b) w₁ more w') :
    ∃ log, host.Records (.running (.pending m) b) w log w' := by
  obtain ⟨frames, stack, trace, cap⟩ := m
  have steps := recorded.answers (f := (·.step ⟨frames, stack, trace, cap⟩)) run
  cases frames with
  | nil =>
    cases run
    exact ⟨_, .plainStep rfl steps further⟩
  | cons frame frames =>
    cases frame with
    | value v =>
      cases run
      exact ⟨_, .plainStep rfl steps further⟩
    | error e =>
      cases run
      exact ⟨_, .plainStep rfl steps further⟩
    | call o argc origin =>
      rcases Nat.lt_or_ge stack.length argc with lacking | enough
      · obtain ⟨-, rfl⟩ := (Host.steps_underflow lacking).mp steps
        have few : (stack.take argc).length < argc := by
          rw [List.length_take]
          omega
        exact ⟨_, .plainStep (by simp only [Machine.invocation?, few, if_true]) steps further⟩
      · rw [step_call enough] at run
        obtain ⟨answer, performed, -⟩ := Effect.map_eq_some.mp run
        obtain ⟨log, records⟩ := recorded.perform performed
        exact ⟨_, .step (Machine.invocation?_call enough) records steps further⟩

theorem finishWithin (recorded : g.Recorded host) {rounds : Nat} {m : Machine}
    {r : Except Error Value} (run : g.finishWithin rounds m w = some (r, w')) :
    ∃ log, host.Records (.running (.pending m) (.done r)) w log w' := by
  induction rounds generalizing m w with
  | zero => cases run
  | succ rounds ih =>
    obtain ⟨a, w₁, stepped, rest⟩ := Effect.bind_eq_some.mp run
    cases a with
    | pending m =>
      obtain ⟨log, further⟩ := ih rest
      exact recorded.step stepped further
    | done r =>
      cases rest
      exact recorded.step stepped .arrived

theorem evaluateOnce (recorded : g.Recorded host) {e : Value} {cap : BacktraceCap}
    {r : Except Error Value} (run : g.evaluateOnce env e cap w = some (r, w')) :
    ∃ log, host.Records (.evaluating env e cap) w log w' := by
  obtain ⟨s, w₁, compiled, executed⟩ := Effect.bind_eq_some.mp run
  obtain ⟨log, records⟩ := recorded.compileOnto compiled
  obtain ⟨more, further⟩ := recorded.finishWithin executed
  exact ⟨_, .evaluating records (recorded.answers (f := (·.compile env e)) compiled) further⟩

/-- Whatever its fuel, the nested evaluations of an engine are on record. -/
theorem withFuel (host : Host σ) (fuel : Nat) : (Engine.withFuel host fuel).Recorded host := by
  induction fuel with
  | zero => exact ⟨⟨0, rfl⟩, fun run => nomatch run⟩
  | succ fuel ih =>
    refine ⟨⟨fuel + 1, rfl⟩, fun {env e cap w r w'} run => ?_⟩
    exact ⟨ih.answers (f := (·.evaluateOnce env e cap)) run, ih.evaluateOnce run⟩

end Engine.Recorded

namespace Host

variable {host : Host σ} {env : Environment} {e : Value} {w w' : World σ}

theorem recorded_compile {s : Stream} (answers : host.Answers (·.compile env e) w s w') :
    ∃ log, host.Records (.expressions env [e]) w log w' := by
  obtain ⟨fuel, run⟩ := answers
  exact (Engine.Recorded.withFuel host fuel).compileOnto run

theorem Reaches.recorded {n : Nat} {calls : List Invocation} {a b : Advance}
    (reach : host.Reaches n calls a w b w') : ∃ log, host.Records (.running a b) w log w' := by
  induction reach with
  | refl => exact ⟨[], .arrived⟩
  | step step _ ih =>
    obtain ⟨fuel, run⟩ := step
    obtain ⟨log, further⟩ := ih
    exact (Engine.Recorded.withFuel host fuel).step run further

end Host

/-! ### What is on record -/

section Lawful

variable {roots : ScopeId → Prop} {children : Prop} {keeps : Scopes → σ → Prop} {host : Host σ}
variable {work : Work} {ds ds' : List Declaration} {w w₁ w' : World σ}

/-- Work on what is held. -/
def Work.Held (roots : ScopeId → Prop) (scopes : Scopes) : Work → Prop
  | idle => True
  | expressions env es => env.Genuine roots scopes ∧ ∀ e ∈ es, e.Held roots scopes
  | declaring root _ _ bs => root.Genuine roots scopes ∧ root.isRoot = true ∧
      Forall₂ (Binding.Alike (.own roots scopes)) bs bs
  | evaluating env e _ => env.Genuine roots scopes ∧ e.Held roots scopes
  | running a _ => a.Alike (.own roots scopes) a
  | calling c args => c.Alike (.own roots scopes) c ∧ ∀ v ∈ args, v.Held roots scopes

/-- What a declaration has bound before this work on it. -/
def Work.before : Work → List (ScopeId × String)
  | declaring root _ bound _ => bound.map (root.scope, ·)
  | _ => []

/-- Names that roots have come to bind between two moments, no name twice. -/
structure Scopes.Gains (roots : ScopeId → Prop) (scopes scopes' : Scopes)
    (names : List (ScopeId × String)) : Prop where
  once : names.Nodup
  root : ∀ p ∈ names, roots p.1
  free : ∀ p ∈ names, scopes.local? p.1 p.2 = none
  bound : ∀ p ∈ names, ∃ v, scopes'.local? p.1 p.2 = some v

/-- The declarations on record between two moments have bound different names, apart from what had
been bound before, and those that have succeeded have bound all of their names. -/
structure Declaration.Lawful (roots : ScopeId → Prop) (scopes scopes' : Scopes)
    (before : List (ScopeId × String)) (ds : List Declaration) : Prop where
  written : ∃ names, (ds.flatMap written).Perm (before ++ names) ∧
    scopes.Gains roots scopes' names
  complete : ∀ d ∈ ds, d.succeeded = true → d.bound = d.names

namespace Scopes.Gains

variable {scopes scopes₁ scopes' : Scopes} {names names' : List (ScopeId × String)}

theorem nil : scopes.Gains roots scopes' [] := ⟨.nil, nofun, nofun, nofun⟩

theorem append (first : scopes.Gains roots scopes₁ names)
    (second : scopes₁.Gains roots scopes' names') (before : scopes.Kept roots children scopes₁)
    (after : scopes₁.Kept roots children scopes') :
    scopes.Gains roots scopes' (names ++ names') where
  once := by
    refine List.nodup_append.mpr ⟨first.once, second.once, fun p gained q again same => ?_⟩
    subst same
    obtain ⟨v, bound⟩ := first.bound p gained
    cases (second.free p again).symm.trans bound
  root p gained := (List.mem_append.mp gained).elim (first.root p) (second.root p)
  free p gained := by
    rcases List.mem_append.mp gained with early | late
    · exact first.free p early
    · cases found : scopes.local? p.1 p.2 with
      | none => rfl
      | some v => cases (second.free p late).symm.trans (before.bound (second.root p late) found)
  bound p gained := by
    rcases List.mem_append.mp gained with early | late
    · obtain ⟨v, bound⟩ := first.bound p early
      exact ⟨v, after.bound (first.root p early) bound⟩
    · exact second.bound p late

end Scopes.Gains

namespace Declaration.Lawful

variable {scopes scopes₁ scopes' : Scopes} {before : List (ScopeId × String)}

theorem nil : Lawful roots scopes scopes' [] [] :=
  ⟨⟨[], .refl _, .nil⟩, nofun⟩

theorem append (first : Lawful roots scopes scopes₁ [] ds)
    (second : Lawful roots scopes₁ scopes' before ds') (kept : scopes.Kept roots children scopes₁)
    (kept' : scopes₁.Kept roots children scopes') :
    Lawful roots scopes scopes' before (ds ++ ds') where
  written := by
    obtain ⟨names, atFirst, gains⟩ := first.written
    obtain ⟨names', atSecond, gains'⟩ := second.written
    refine ⟨names ++ names', ?_, gains.append gains' kept kept'⟩
    calc (ds ++ ds').flatMap Declaration.written
        = ds.flatMap Declaration.written ++ ds'.flatMap Declaration.written := List.flatMap_append
      _ ~ names ++ (before ++ names') := atFirst.append atSecond
      _ = (names ++ before) ++ names' := (List.append_assoc ..).symm
      _ ~ (before ++ names) ++ names' := List.perm_append_comm.append_right _
      _ = before ++ (names ++ names') := List.append_assoc ..
  complete d recorded :=
    (List.mem_append.mp recorded).elim (first.complete d) (second.complete d)

/-- What a declaration binds next counts as bound before from then on. -/
theorem claim {p : ScopeId × String} {v : Value}
    (lawful : Lawful roots scopes₁ scopes' (before ++ [p]) ds) (root : roots p.1)
    (free : scopes.local? p.1 p.2 = none) (bound : scopes₁.local? p.1 p.2 = some v)
    (kept : scopes.Kept roots children scopes₁) (kept' : scopes₁.Kept roots children scopes') :
    Lawful roots scopes scopes' before ds := by
  obtain ⟨names, written, gains⟩ := lawful.written
  have claimed : scopes.Gains roots scopes₁ [p] :=
    ⟨by simp, by simpa using root, by simpa using free, by simpa using ⟨v, bound⟩⟩
  refine ⟨⟨[p] ++ names, ?_, claimed.append gains kept kept'⟩, lawful.complete⟩
  rwa [← List.append_assoc]

theorem ended (d : Declaration) (complete : d.succeeded = true → d.bound = d.names) :
    Lawful roots scopes scopes' d.written [d] :=
  ⟨⟨[], by simp, .nil⟩, by simpa using complete⟩

end Declaration.Lawful

namespace Work.Held

variable {scopes scopes' : Scopes} {env : Environment} {pending : List Value}

theorem further {piece : Except Error Piece} (genuine : env.Genuine roots scopes)
    (held : ∀ e ∈ pending, e.Held roots scopes)
    (same : Matched (.own roots scopes) (Piece.Alike (.own roots scopes)) piece piece) :
    (Work.further env pending piece).Held roots scopes := by
  cases same with
  | error _ => trivial
  | ok same =>
    cases same with
    | value _ => exact ⟨genuine, held⟩
    | @splice more _ _ =>
      rw [Work.further_splice]
      split
      · trivial
      · exact ⟨genuine, held⟩
    | «instead» same => exact ⟨genuine, List.forall_mem_cons.mpr ⟨same, held⟩⟩
    | application _ operands =>
      refine ⟨genuine, fun e member => ?_⟩
      rcases List.mem_append.mp member with operand | old
      · exact Value.heldAll.mp operands e (List.mem_reverse.mp operand)
      · exact held e old

theorem performing {o : Operation} {args : List Value} (same : o.Alike (.own roots scopes) o)
    (held : ∀ v ∈ args, v.Held roots scopes) :
    (Work.performing o args).Held roots scopes := by
  cases same with
  | callable same => exact ⟨same, held⟩
  | branch around t e =>
    refine ⟨around.2, List.forall_mem_singleton.mpr ?_⟩
    split
    · exact t
    · exact e
  | sequel around next => exact ⟨around.2, List.forall_mem_singleton.mpr next⟩

theorem replied {reply : Except Error Reply}
    (same : Matched (.own roots scopes) (Reply.Alike (.own roots scopes)) reply reply) :
    (Work.replied reply).Held roots scopes := by
  cases same with
  | error _ => trivial
  | ok same =>
    cases same with
    | invoke c args => exact ⟨c, Value.heldAll.mp args⟩
    | answer same =>
      cases same with
      | compile around same => exact ⟨around.2, List.forall_mem_singleton.mpr same⟩
      | _ => trivial

/-- What a form does before it answers is done on what is held, after no more than binding
names. -/
theorem insideForm (writes : host.Writes roots children keeps) (sound : w.Sound roots keeps)
    {f : Form} {operands : List Value} (held : ∀ e ∈ operands, e.Held roots w.scopes)
    (genuine : env.Genuine roots w.scopes)
    (inside : host.insideForm f operands env w = some (work, w₁)) :
    w.scopes.Kept roots children w₁.scopes ∧ w₁.Sound roots keeps ∧
      work.Held roots w₁.scopes ∧ work.before = [] := by
  have first : ∀ {c rest}, operands = c :: rest → (expressions env [c]).Held roots w.scopes := by
    rintro c rest rfl
    exact ⟨genuine, List.forall_mem_singleton.mpr (held c List.mem_cons_self)⟩
  unfold Host.insideForm at inside
  split at inside
  · cases inside
    exact ⟨.refl _, sound, first rfl, rfl⟩
  · cases inside
    exact ⟨.refl _, sound, first rfl, rfl⟩
  · cases inside
    exact ⟨.refl _, sound, first rfl, rfl⟩
  · split at inside
    · rename_i v _ bs read
      cases inside
      have bindings := Binding.readAll_alike (held v List.mem_cons_self)
      rw [read] at bindings
      cases bindings with
      | ok bindings => exact ⟨.refl _, sound, ⟨genuine.root, env.root_isRoot, bindings⟩, rfl⟩
    · cases inside
  · split at inside
    · rename_i name _ env' e w₂ answer
      cases inside
      have answered : (host.form name operands env).Writes roots children keeps Answer.Alike w :=
        writes.form sound held genuine
      obtain ⟨binds, kept, result⟩ := answered
      obtain ⟨later, after⟩ := Scopes.Binds.all sound.scopes binds
      rw [answer] at later after kept result
      cases result with
      | ok same =>
        cases same with
        | compile around same =>
          exact ⟨later, ⟨after, kept⟩, ⟨around.2, List.forall_mem_singleton.mpr same⟩, rfl⟩
    · cases inside
  · cases inside

theorem inside (writes : host.Writes roots children keeps) (sound : w.Sound roots keeps)
    {e : Value} (held : e.Held roots w.scopes) (genuine : env.Genuine roots w.scopes)
    (inside : host.inside env e w = some (work, w₁)) :
    w.scopes.Kept roots children w₁.scopes ∧ w₁.Sound roots keeps ∧
      work.Held roots w₁.scopes ∧ work.before = [] := by
  unfold Host.inside at inside
  split at inside
  · rename_i operator operands
    split at inside
    · split at inside
      · cases held with
        | list all =>
          exact insideForm writes sound
            (fun e member => Value.heldAll.mp all e (List.mem_cons_of_mem _ member)) genuine inside
      · cases inside
    · cases inside
  · cases inside

end Work.Held

theorem Machine.Alike.invocation {ρ : Likeness} {m : Machine} {i : Invocation}
    (same : m.Alike ρ m) (next : m.invocation? = some i) :
    i.operation.Alike ρ i.operation ∧ Forall₂ (Value.Alike ρ) i.args i.args := by
  obtain ⟨frames, stack, trace, cap⟩ := m
  unfold Machine.invocation? at next
  split at next
  · rename_i operation argc origin rest whole
    split at next
    · cases next
    · cases next
      have first := same.frames
      rw [whole] at first
      cases first with
      | cons call _ =>
        cases call with
        | call operation _ =>
          exact ⟨operation, List.rel_reverse (List.forall₂_take argc same.stack)⟩
  · cases next

@[simp]
theorem Work.further_before {env : Environment} {pending : List Value}
    {piece : Except Error Piece} : (Work.further env pending piece).before = [] := by
  cases piece with
  | error e => rfl
  | ok piece =>
    cases piece with
    | splice more =>
      rw [Work.further_splice]
      split <;> rfl
    | _ => rfl

@[simp]
theorem Work.performing_before {o : Operation} {args : List Value} :
    (Work.performing o args).before = [] := by
  cases o <;> rfl

@[simp]
theorem Work.replied_before {reply : Except Error Reply} : (Work.replied reply).before = [] := by
  cases reply with
  | error e => rfl
  | ok reply =>
    cases reply with
    | invoke c args => rfl
    | answer answer => cases answer <;> rfl

/-- From the one world to the other, moment by moment, the scopes are kept and all stays sound, and
the declarations on record are lawful. -/
structure World.Passes (roots : ScopeId → Prop) (children : Prop) (keeps : Scopes → σ → Prop)
    (w : World σ) (before : List (ScopeId × String)) (log : List Event) (w' : World σ) : Prop where
  course : w.scopes.Course roots children (momentsOf log) w'.scopes
  sound : w'.Sound roots keeps
  lawful : Declaration.Lawful roots w.scopes w'.scopes before (declarationsOf log)

namespace World.Passes

variable {before : List (ScopeId × String)} {log more : List Event}

theorem stay (sound : w.Sound roots keeps) : w.Passes roots children keeps [] [] w :=
  ⟨.stay, sound, .nil⟩

theorem moment (kept : w.scopes.Kept roots children w'.scopes) (sound : w'.Sound roots keeps) :
    w.Passes roots children keeps [] [.moment w'.scopes] w' :=
  ⟨.move kept sound.scopes .stay, sound, .nil⟩

theorem kept (passes : w.Passes roots children keeps before log w') (start : w.Sound roots keeps) :
    w.scopes.Kept roots children w'.scopes :=
  passes.course.kept start.scopes

theorem trans (start : w.Sound roots keeps) (first : w.Passes roots children keeps [] log w₁)
    (second : w₁.Passes roots children keeps before more w') :
    w.Passes roots children keeps before (log ++ more) w' where
  course := by
    rw [momentsOf_append]
    exact first.course.append second.course
  sound := second.sound
  lawful := by
    rw [declarationsOf_append]
    exact first.lawful.append second.lawful (first.kept start) (second.kept first.sound)

/-- A declaration that ends here goes on record. -/
theorem ended (start : w.Sound roots keeps) (passes : w.Passes roots children keeps [] log w')
    (d : Declaration) (complete : d.succeeded = true → d.bound = d.names) :
    w.Passes roots children keeps d.written (log ++ [.declaration d]) w' :=
  passes.trans start ⟨.stay, passes.sound, .ended d complete⟩

/-- A declaration binds one more name. -/
theorem claims (writes : host.Writes roots children keeps) {root : Environment} {name : String}
    {v : Value} {bound : List String} (start : w.Sound roots keeps) (atRoot : root.isRoot = true)
    (genuine : root.Genuine roots w.scopes) (held : v.Held roots w.scopes)
    (binds : w.bind root name v = (.ok (), w₁))
    (passes : w₁.Passes roots children keeps ((bound ++ [name]).map (root.scope, ·)) log w') :
    w.Passes roots children keeps (bound.map (root.scope, ·)) (.moment w₁.scopes :: log) w' := by
  have opened := genuine.opened root.scope List.mem_cons_self
  obtain ⟨kept, after⟩ := start.bind writes (Or.inl atRoot) genuine held
  rw [binds] at kept after
  refine ⟨.move kept after.scopes passes.course, passes.sound, ?_⟩
  have lawful := passes.lawful
  rw [List.map_append, List.map_singleton] at lawful
  unfold World.bind at binds
  cases bound : w.scopes.bind root name v with
  | error e =>
    rw [bound] at binds
    cases binds
  | ok scopes =>
    rw [bound] at binds
    cases binds
    obtain ⟨-, fresh, rfl⟩ := Scopes.bind_eq_ok bound
    rw [atRoot, Bool.true_and, Scopes.binds_eq, Option.isSome_eq_false_iff,
      Option.isNone_iff_eq_none] at fresh
    refine lawful.claim (v := v) (genuine.root_of_isRoot atRoot) fresh ?_ kept (passes.kept after)
    exact Scopes.local?_define.trans (if_pos ⟨rfl, rfl, opened⟩)

end World.Passes

namespace Host

theorem Writes.pieces (writes : host.Writes roots children keeps) (sound : w.Sound roots keeps)
    {env : Environment} {e : Value} {piece : Except Error Piece} (held : e.Held roots w.scopes)
    (genuine : env.Genuine roots w.scopes) (pieces : host.Pieces env e w piece w') :
    w'.Sound roots keeps ∧ w.scopes.Kept roots children w'.scopes ∧
      Matched (.own roots w'.scopes) (Piece.Alike (.own roots w'.scopes)) piece piece := by
  obtain ⟨after, kept, same⟩ := writes.answers sound
    (fun below => below.compileOne (fun env e => below.compile env e) env e) pieces
    fun g serves => serves.compileOne_matches serves.compile_matches held ⟨rfl, genuine⟩
  exact ⟨after, kept, same⟩

theorem Writes.evaluates (writes : host.Writes roots children keeps) (sound : w.Sound roots keeps)
    {env : Environment} {e : Value} {cap : BacktraceCap} {r : Except Error Value}
    (held : e.Held roots w.scopes) (genuine : env.Genuine roots w.scopes)
    (answers : host.Answers (·.evaluateOnce env e cap) w r w') :
    w'.Sound roots keeps ∧ w.scopes.Kept roots children w'.scopes ∧
      Matched (.own roots w'.scopes) (Value.Alike (.own roots w'.scopes)) r r := by
  let now : (Correspondence.own roots children keeps).Moment := ⟨w, sound⟩
  obtain ⟨after, kept, same⟩ := writes.answers sound (fun below => below.evaluateOnce env e cap)
    answers fun g serves => serves.evaluateOnce_matches (k := now) ⟨rfl, genuine⟩ held cap
  exact ⟨after, kept, same⟩

theorem Writes.compiles (writes : host.Writes roots children keeps) (sound : w.Sound roots keeps)
    {env : Environment} {e : Value} {s : Stream} (held : e.Held roots w.scopes)
    (genuine : env.Genuine roots w.scopes) (answers : host.Answers (·.compile env e) w s w') :
    w'.Sound roots keeps ∧ w.scopes.Kept roots children w'.scopes ∧
      s.Alike (.own roots w'.scopes) s := by
  let now : (Correspondence.own roots children keeps).Moment := ⟨w, sound⟩
  obtain ⟨after, kept, same⟩ := writes.answers sound (fun below => below.compile env e) answers
    fun g serves => serves.compile_matches (k := now) ⟨rfl, genuine⟩ held
  exact ⟨after, kept, same⟩

theorem Writes.steps (writes : host.Writes roots children keeps) (sound : w.Sound roots keeps)
    {m : Machine} {a : Advance} (held : Advance.Alike (.own roots w.scopes) (.pending m) (.pending m))
    (steps : host.Steps m w a w') :
    w'.Sound roots keeps ∧ w.scopes.Kept roots children w'.scopes ∧
      a.Alike (.own roots w'.scopes) a := by
  cases held with
  | pending machine =>
    obtain ⟨after, kept, same⟩ := writes.answers sound (fun below => below.step m) steps
      fun g serves => serves.step_matches machine
    exact ⟨after, kept, same⟩

theorem Writes.slices (writes : host.Writes roots children keeps) (sound : w.Sound roots keeps)
    {clock : Clock} {budget batch n : Nat} {calls : List Invocation} {m : Machine} {a : Advance}
    (held : m.Alike (.own roots w.scopes) m)
    (slice : host.Slice clock budget batch 0 n calls m w a w') :
    w'.Sound roots keeps ∧ w.scopes.Kept roots children w'.scopes ∧
      a.Alike (.own roots w'.scopes) a := by
  obtain ⟨after, kept, same⟩ := writes.answers sound
    (fun below => below.runSlice clock budget batch below.fuel 0 m)
    (slice_iff.mpr ⟨n, calls, slice⟩) fun g serves =>
      serves.runSlice_matches clock budget batch g.fuel 0 held
  exact ⟨after, kept, same⟩

/-- Whatever work on what is held is done, all that is put on record is as it should be. -/
theorem Records.passes (writes : host.Writes roots children keeps) {log : List Event}
    (records : host.Records work w log w') (sound : w.Sound roots keeps)
    (held : work.Held roots w.scopes) :
    w.Passes roots children keeps work.before log w' := by
  induction records with
  | idle => exact .stay sound
  | nil => exact .stay sound
  | arrived => exact .stay sound
  | plain inside pieces _ ih =>
    obtain ⟨genuine, held⟩ := held
    obtain ⟨first, rest⟩ := List.forall_mem_cons.mp held
    obtain ⟨after, kept, same⟩ := writes.pieces sound first genuine pieces
    have further := ih after (.further (genuine.grows kept.opened)
      (fun e member => (rest e member).grows kept.opened) same)
    rw [Work.further_before] at further
    exact (World.Passes.moment kept after).trans sound further
  | nested inside _ pieces _ ih ih' =>
    obtain ⟨genuine, held⟩ := held
    obtain ⟨first, rest⟩ := List.forall_mem_cons.mp held
    obtain ⟨opens, start, held, before⟩ := Work.Held.inside writes sound first genuine inside
    have within := ih start held
    rw [before] at within
    obtain ⟨after, kept, same⟩ := writes.pieces sound first genuine pieces
    have further := ih' after (.further (genuine.grows kept.opened)
      (fun e member => (rest e member).grows kept.opened) same)
    rw [Work.further_before] at further
    exact ((World.Passes.moment opens start).trans sound within).trans sound further
  | declared => exact (World.Passes.stay sound).ended sound (.success ..) fun _ => rfl
  | misnamed named => exact (World.Passes.stay sound).ended sound (.failure ..) nofun
  | defined named free => exact (World.Passes.stay sound).ended sound (.failure ..) nofun
  | fails named free _ answers ih =>
    obtain ⟨genuine, atRoot, bindings⟩ := held
    cases bindings with
    | cons first more => exact (ih sound ⟨genuine, first.init⟩).ended sound (.failure ..) nofun
  | refused named free _ answers refused ih =>
    obtain ⟨genuine, atRoot, bindings⟩ := held
    cases bindings with
    | cons first more =>
      have passes := ih sound ⟨genuine, first.init⟩
      have same := World.bind_refused refused
      subst same
      exact passes.ended sound (.failure ..) nofun
  | binds named free _ answers bound _ ih ih' =>
    obtain ⟨genuine, atRoot, bindings⟩ := held
    cases bindings with
    | cons first more =>
      have passes := ih sound ⟨genuine, first.init⟩
      obtain ⟨after, kept, same⟩ := writes.evaluates sound first.init genuine answers
      have genuine := genuine.grows kept.opened
      cases same with
      | ok held =>
        obtain ⟨kept', after'⟩ := after.bind writes (Or.inl atRoot) genuine held
        rw [bound] at kept' after'
        have more := more.imp fun _ _ => Binding.Alike.mono
          (Likeness.own_le (Nat.le_trans kept.opened kept'.opened))
        have rest := ih' after' ⟨genuine.grows kept'.opened, atRoot, more⟩
        exact passes.trans sound (.claims writes after atRoot genuine held bound rest)
  | evaluating _ answers _ ih ih' =>
    obtain ⟨genuine, held⟩ := held
    have compiling := ih sound ⟨genuine, List.forall_mem_singleton.mpr held⟩
    obtain ⟨after, -, same⟩ := writes.compiles sound held genuine answers
    exact compiling.trans sound (ih' after (.pending (.start same _)))
  | plainStep none steps _ ih =>
    obtain ⟨after, -, same⟩ := writes.steps sound held steps
    exact ih after same
  | step next _ steps _ ih ih' =>
    cases held with
    | pending machine =>
      obtain ⟨operation, args⟩ := machine.invocation next
      have performing := ih sound (.performing operation (Value.heldAll.mp args))
      rw [Work.performing_before] at performing
      obtain ⟨after, -, same⟩ := writes.steps sound (.pending machine) steps
      exact performing.trans sound (ih' after same)
  | calling answers _ ih =>
    obtain ⟨callee, held⟩ := held
    obtain ⟨after, kept, same⟩ := writes.answers sound (fun below => below.reply _ _) answers
      fun g serves => serves.reply_matches callee (Value.heldAll.mpr held)
    have replied := ih after (.replied same)
    rw [Work.replied_before] at replied
    exact (World.Passes.moment kept after).trans sound replied

end Host

end Lawful

end CooperativeLisp

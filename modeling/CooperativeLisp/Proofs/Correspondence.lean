import CooperativeLisp.Proofs.AlikeLibrary
import CooperativeLisp.Proofs.Compiled
import CooperativeLisp.Proofs.Tasks

/-!
Engines at work in two worlds that correspond. What corresponds at a moment still does so later, and
nothing that an engine does tells the two worlds apart: if look-ups, scopes of invocations,
identities of closures, declarations and the functions of the host respect the correspondence, so
does whatever is compiled, invoked and run, frame by frame and slice by slice.
-/

namespace CooperativeLisp

open List (Forall₂)

variable {σ α β α' β' : Type}

/-- Pairs of worlds, each at a moment, with the likeness between them. Later moments keep what was
alike before. -/
structure Correspondence (σ : Type) where
  Moment : Type
  left : Moment → World σ
  right : Moment → World σ
  likeness : Moment → Likeness
  Later : Moment → Moment → Prop
  refl : ∀ k, Later k k
  trans : ∀ {k k₁ k₂}, Later k k₁ → Later k₁ k₂ → Later k k₂
  grows : ∀ {k k'}, Later k k' → (likeness k).Le (likeness k')

namespace Correspondence

variable (C : Correspondence σ)

/-- The worlds that two computations end in correspond, and so do their results. -/
def Leads (k : C.Moment) (R : C.Moment → α → β → Prop) (p : α × World σ) (q : β × World σ) :
    Prop :=
  ∃ k', C.Later k k' ∧ C.left k' = p.2 ∧ C.right k' = q.2 ∧ R k' p.1 q.1

/-- Whatever the first computation answers in the one world, the second answers in the other. -/
structure Matches (k : C.Moment) (R : C.Moment → α → β → Prop) (x : Effect σ α) (y : Effect σ β) :
    Prop where
  answer : ∀ {p}, x (C.left k) = some p → ∃ q, y (C.right k) = some q ∧ C.Leads k R p q

/-- Both ends are results that are related, or failures that are alike. -/
def Both (R : C.Moment → α → β → Prop) (k : C.Moment) : Except Error α → Except Error β → Prop :=
  Matched (C.likeness k) (R k)

def Values (k : C.Moment) : Value → Value → Prop :=
  Value.Alike (C.likeness k)

def Streams (k : C.Moment) : Stream → Stream → Prop :=
  Stream.Alike (C.likeness k)

def Outcomes (k : C.Moment) : Outcome → Outcome → Prop :=
  Outcome.Alike (C.likeness k)

def Replies (k : C.Moment) : Reply → Reply → Prop :=
  Reply.Alike (C.likeness k)

def Advances (k : C.Moment) : Advance → Advance → Prop :=
  Advance.Alike (C.likeness k)

variable {C}

namespace Matches

variable {k : C.Moment} {R : C.Moment → α → β → Prop} {S : C.Moment → α' → β' → Prop}

theorem pure {a : α} {b : β} (related : R k a b) :
    C.Matches k R (Pure.pure a : Effect σ α) (Pure.pure b : Effect σ β) := by
  refine ⟨fun {p} run => ?_⟩
  cases run
  exact ⟨_, rfl, k, C.refl k, rfl, rfl, related⟩

theorem exhausted : C.Matches k R (Effect.exhausted : Effect σ α) (Effect.exhausted : Effect σ β) :=
  ⟨fun run => absurd run Effect.exhausted_ne_some⟩

theorem bind {x : Effect σ α} {y : Effect σ β} {f : α → Effect σ α'} {g : β → Effect σ β'}
    (first : C.Matches k R x y)
    (rest : ∀ {k₁ a b}, C.Later k k₁ → R k₁ a b → C.Matches k₁ S (f a) (g b)) :
    C.Matches k S (x >>= f) (y >>= g) := by
  refine ⟨fun {p} run => ?_⟩
  obtain ⟨a, W, atFirst, atRest⟩ := Effect.bind_eq_some.mp run
  obtain ⟨⟨b, w⟩, same, k₁, later, rfl, rfl, related⟩ := first.answer atFirst
  obtain ⟨q, ends, k₂, after, leads⟩ := (rest later related).answer atRest
  exact ⟨q, Effect.bind_eq_some.mpr ⟨b, _, same, ends⟩, k₂, C.trans later after, leads⟩

theorem attempt {x : Attempt σ α} {y : Attempt σ β} {f : α → Attempt σ α'} {g : β → Attempt σ β'}
    (first : C.Matches k (C.Both R) x.run y.run)
    (rest : ∀ {k₁ a b}, C.Later k k₁ → R k₁ a b →
      C.Matches k₁ (C.Both S) (f a).run (g b).run) :
    C.Matches k (C.Both S) (x >>= f).run (y >>= g).run :=
  Matches.bind first fun later ended => by
    cases ended with
    | ok related => exact rest later related
    | error alike => exact Matches.pure (Matched.error alike)

theorem ofExcept {x : Except Error α} {y : Except Error β} (same : C.Both R k x y) :
    C.Matches k (C.Both R) (Attempt.ofExcept x : Attempt σ α).run
      (Attempt.ofExcept y : Attempt σ β).run :=
  Matches.pure same

theorem ok {a : α} {b : β} (related : R k a b) :
    C.Matches k (C.Both R) (Pure.pure a : Attempt σ α).run (Pure.pure b : Attempt σ β).run :=
  Matches.pure (Matched.ok related)

theorem fail (f : Fault) :
    C.Matches k (C.Both R) (Attempt.fail f : Attempt σ α).run (Attempt.fail f : Attempt σ β).run :=
  Matches.pure (Matched.same f)

theorem ofHost {x : HostAction σ α} {y : HostAction σ β}
    (leads : C.Leads k (C.Both R) (x.run.run (C.left k)) (y.run.run (C.right k))) :
    C.Matches k (C.Both R) (Attempt.ofHost x).run (Attempt.ofHost y).run := by
  refine ⟨fun {p} run => ?_⟩
  cases run
  exact ⟨_, rfl, leads⟩

theorem lift {x : Effect σ α} {y : Effect σ β} (same : C.Matches k R x y) :
    C.Matches k (C.Both R) (liftM x : Attempt σ α).run (liftM y : Attempt σ β).run :=
  Matches.bind same fun _ related => Matches.pure (Matched.ok related)

end Matches

/-- All that an engine does to a world, and all that it asks of one, respects the correspondence.
What is said of declarations and of the host's functions is said only where they may occur. -/
structure Respected (C : Correspondence σ) (host : Host σ) : Prop where
  lookup : ∀ {k env env' name}, (C.likeness k).environment env env' →
    Option.Rel (C.Values k) ((C.left k).scopes.get? env name) ((C.right k).scopes.get? env' name)
  opens : ∀ {k c d args args'}, Callable.Alike (C.likeness k) (.closure c) (.closure d) →
    Forall₂ (C.Values k) args args' → C.Leads k (fun k => (C.likeness k).environment)
      ((C.left k).enter c args) ((C.right k).enter d args')
  makes : ∀ k, C.Leads k (fun k i j => (C.likeness k).identity i j)
    ((C.left k).closures, { C.left k with closures := (C.left k).closures + 1 })
    ((C.right k).closures, { C.right k with closures := (C.right k).closures + 1 })
  root : ∀ {k env env' cap}, (C.likeness k).admits (.form (.exports cap)) →
    (C.likeness k).environment env env' → (C.likeness k).environment env.root env'.root
  binds : ∀ {k env env' cap}, (C.likeness k).admits (.form (.exports cap)) →
    (C.likeness k).environment env env' → ∀ name,
    (C.left k).scopes.binds env.root name = (C.right k).scopes.binds env'.root name
  bind : ∀ {k env env' cap v v'}, (C.likeness k).admits (.form (.exports cap)) →
    (C.likeness k).environment env env' → C.Values k v v' → ∀ name,
    C.Leads k (C.Both fun _ _ _ => True) ((C.left k).bind env.root name v)
      ((C.right k).bind env'.root name v')
  native : ∀ {k name args args'}, (C.likeness k).admits (.native (.host name)) →
    Forall₂ (C.Values k) args args' → C.Leads k (C.Both C.Replies)
      ((host.native name args).run.run (C.left k)) ((host.native name args').run.run (C.right k))
  form : ∀ {k name operands operands' env env'}, (C.likeness k).admits (.form (.host name)) →
    Forall₂ (C.Values k) operands operands' → (C.likeness k).environment env env' →
    C.Leads k (C.Both fun k => Answer.Alike (C.likeness k))
      ((host.form name operands env).run.run (C.left k))
      ((host.form name operands' env').run.run (C.right k))
  expander : ∀ {k name operands operands' env env'},
    (C.likeness k).admits (.expander (.host name)) →
    Forall₂ (C.Values k) operands operands' → (C.likeness k).environment env env' →
    C.Leads k (C.Both C.Values) ((host.expander name operands env).run.run (C.left k))
      ((host.expander name operands' env').run.run (C.right k))

/-! ### Compilation -/

section Compilation

variable {k : C.Moment} {env env' : Environment} {v w : Value} {vs ws : List Value}
variable {g : Engine σ}

/-- An engine that evaluates nested expressions alike. -/
structure Serves (C : Correspondence σ) (g : Engine σ) : Prop where
  respected : C.Respected g.host
  evaluate : ∀ {k env env' v w} cap, (C.likeness k).environment env env' → C.Values k v w →
    C.Matches k (C.Both C.Values) (g.evaluate env v cap) (g.evaluate env' w cap)

/-- A compiler that compiles alike expressions alike. -/
def Compiles (C : Correspondence σ) (compile : Environment → Value → Effect σ Stream) : Prop :=
  ∀ {k env env' v w}, (C.likeness k).environment env env' → C.Values k v w →
    C.Matches k C.Streams (compile env v) (compile env' w)

theorem Respected.lookup_matches (respected : C.Respected g.host)
    (around : (C.likeness k).environment env env') (name : String) :
    C.Matches k (C.Both C.Values) (Engine.lookup env name : Attempt σ Value).run
      (Engine.lookup env' name : Attempt σ Value).run := by
  have found : Option.Rel (C.Values k) ((C.left k).scopes.get? env name)
      ((C.right k).scopes.get? env' name) := respected.lookup around
  have same : C.Both C.Values k ((C.left k).scopes.lookup env name)
      ((C.right k).scopes.lookup env' name) := by
    unfold Scopes.lookup
    revert found
    generalize (C.left k).scopes.get? env name = x
    generalize (C.right k).scopes.get? env' name = y
    intro found
    cases found with
    | none => exact .same _
    | some alike => exact .ok alike
  refine ⟨fun {p} run => ?_⟩
  cases run
  exact ⟨_, rfl, k, C.refl k, rfl, rfl, same⟩

theorem Respected.resolveOperator_matches (respected : C.Respected g.host)
    (around : (C.likeness k).environment env env') (operator : C.Values k v w) :
    C.Matches k (C.Both fun k => Callable.Alike (C.likeness k))
      (Engine.resolveOperator env v : Attempt σ Callable).run
      (Engine.resolveOperator env' w : Attempt σ Callable).run := by
  have shown := operator.display
  cases operator with
  | symbol name =>
    refine (respected.lookup_matches around name).attempt fun {k₁ v w} _ bound => ?_
    cases bound with
    | native known => exact .ok (.native known)
    | form known => exact .ok (.form known)
    | expander known => exact .ok (.expander known)
    | closure same body around => exact .ok (.closure same body around)
    | _ => exact .fail _
  | native known => exact .ok (.native known)
  | form known => exact .ok (.form known)
  | expander known => exact .ok (.expander known)
  | closure same body around => exact .ok (.closure same body around)
  | list all =>
    dsimp only [Engine.resolveOperator]
    rw [shown]
    exact .fail _
  | _ => exact .fail _

theorem validate_matches {k : C.Moment} (arity : Arity) (n : Nat) :
    C.Matches k (C.Both fun _ _ _ => True) (Attempt.ofExcept (arity.validate n) : Attempt σ Unit).run
      (Attempt.ofExcept (arity.validate n) : Attempt σ Unit).run := by
  refine Matches.ofExcept ?_
  cases admitted : arity.validate n with
  | error e => exact .error (Arity.validate_refusal admitted)
  | ok _ => exact .ok trivial

theorem Serves.expand_matches (serves : C.Serves g) {x : Expander}
    (known : (C.likeness k).Knows (.expander x)) (operands : Forall₂ (C.Values k) vs ws)
    (around : (C.likeness k).environment env env') :
    C.Matches k (C.Both C.Values) (g.expand x vs env).run (g.expand x ws env').run := by
  unfold Engine.expand
  rw [operands.length_eq]
  refine Matches.attempt (validate_matches ..) fun later _ => ?_
  have operands := Value.Alike.monoAll (C.grows later) operands
  have replaced := x.expand?_alike operands
  cases left : x.expand? vs with
  | none =>
    obtain ⟨name, rfl⟩ := Expander.expand?_eq_none left
    refine Matches.ofHost (serves.respected.expander ?_ operands ((C.grows later).environment around))
    exact (C.grows later).admits (known.resolve_left id)
  | some x =>
    rw [left] at replaced
    revert replaced
    generalize Expander.expand? _ ws = y
    intro replaced
    cases replaced with
    | some same => exact Matches.ofExcept same

theorem Respected.makeClosure_matches (respected : C.Respected g.host)
    (around : (C.likeness k).environment env env') (params : C.Values k v w)
    (body : Forall₂ (C.Values k) vs ws) :
    C.Matches k (C.Both C.Values) (Engine.makeClosure env v vs : Attempt σ Value).run
      (Engine.makeClosure env' w ws : Attempt σ Value).run := by
  refine Matches.attempt (R := fun k c d => Callable.Alike (C.likeness k) (.closure c) (.closure d))
    ⟨fun run => ?_⟩ fun _ same => Matches.ok same
  cases run
  obtain ⟨k', later, atLeft, atRight, same⟩ := respected.makes k
  have le := C.grows later
  exact ⟨_, rfl, k', later, atLeft, atRight, Closure.make_alike same (params.mono le)
    (Engine.bodyOf_alike (Value.Alike.monoAll le body)) (le.environment around)⟩

theorem declaredName_alike (name : C.Values k v w) :
    C.Both (fun _ => Eq) k (Engine.declaredName v) (Engine.declaredName w) := by
  cases name with
  | symbol name => exact .ok rfl
  | list all =>
    refine .fault ⟨rfl, ?_⟩
    dsimp only [Fault.message, TypeFault.message]
    rw [Value.Alike.display (.list all)]
  | closure _ _ _ => exact .fault ⟨rfl, rfl⟩
  | _ => exact .same _

/-- Declarations find the same names bound, and bind them to values that are alike. -/
theorem Serves.declare_matches (serves : C.Serves g) {cap : BacktraceCap}
    (admitted : (C.likeness k).admits (.form (.exports cap)))
    (around : (C.likeness k).environment env env') {bs bs' : List Binding}
    (bindings : Forall₂ (Binding.Alike (C.likeness k)) bs bs') :
    C.Matches k (C.Both C.Values) (g.declare env.root cap bs).run
      (g.declare env'.root cap bs').run := by
  induction bs generalizing k bs' with
  | nil =>
    cases bindings
    exact .ok .truth
  | cons b bs ih =>
    cases bindings with
    | @cons _ b' _ bs' first more =>
      unfold Engine.declare
      refine Matches.attempt (Matches.ofExcept (declaredName_alike first.name))
        fun {k₁ name _} later same => ?_
      subst same
      refine Matches.attempt
        (R := fun k scopes scopes' => scopes = (C.left k).scopes ∧ scopes' = (C.right k).scopes)
        ⟨fun run => ?_⟩ ?_
      · cases run
        exact ⟨_, rfl, k₁, C.refl _, rfl, rfl, .ok ⟨rfl, rfl⟩⟩
      rintro k₂ _ _ after ⟨rfl, rfl⟩
      have le := C.grows (C.trans later after)
      rw [serves.respected.binds (le.admits admitted) (le.environment around) name]
      split
      · exact .fail _
      have root := serves.respected.root (le.admits admitted) (le.environment around)
      refine Matches.attempt (serves.evaluate cap root (first.init.mono le)) ?_
      intro k₃ v v' evaluated same
      have le := le.trans (C.grows evaluated)
      refine Matches.attempt (R := fun _ _ _ => True) ⟨fun run => ?_⟩ ?_
      · cases run
        exact ⟨_, rfl, serves.respected.bind (le.admits admitted) (le.environment around) same name⟩
      intro k₄ _ _ bound _
      have le := le.trans (C.grows bound)
      exact ih (le.admits admitted) (le.environment around)
        (more.imp fun _ _ => Binding.Alike.mono le)

/-! ### Forms -/

theorem choice_alike (around : (C.likeness k).environment env env') {t t' e e' : Value}
    (consequent : C.Values k t t') (alternative : C.Values k e e')
    (operands : Forall₂ (C.Values k) vs ws) :
    C.Streams k (Engine.choice env t e vs) (Engine.choice env' t' e' ws) :=
  Stream.Alike.empty.pushCall (.branch around consequent alternative) 1
    (Library.apply_alike (.symbol "if") operands)

theorem sequels_alike (around : (C.likeness k).environment env env') (first : C.Values k v w)
    (rest : Forall₂ (C.Values k) vs ws) :
    C.Streams k (Engine.sequels env v vs) (Engine.sequels env' w ws) := by
  have origin := Library.apply_alike (.symbol "progn") (.cons first rest)
  refine List.rel_foldl (P := C.Streams k) ?_ Stream.Alike.empty (List.rel_reverse rest)
  exact fun _ _ waiting _ _ next => waiting.pushCall (.sequel around next) 1 origin

theorem Compiles.before {compile : Environment → Value → Effect σ Stream}
    (compiles : C.Compiles compile) (around : (C.likeness k).environment env env')
    (alike : C.Values k v w) {s s' : Stream} (waiting : C.Streams k s s') :
    C.Matches k (C.Both C.Outcomes)
      (do return .stream (← Engine.compileBefore compile env v s) : Attempt σ Outcome).run
      (do return .stream (← Engine.compileBefore compile env' w s') : Attempt σ Outcome).run := by
  rw [Engine.formAnswer_compileBefore, Engine.formAnswer_compileBefore]
  refine (compiles around alike).bind fun later compiled => ?_
  exact .pure (.ok (.stream ((waiting.mono (C.grows later)).merge compiled)))

theorem Serves.formAnswer_matches (serves : C.Serves g)
    {compile : Environment → Value → Effect σ Stream} (compiles : C.Compiles compile) {f : Form}
    (known : (C.likeness k).Knows (.form f)) (operands : Forall₂ (C.Values k) vs ws)
    (around : (C.likeness k).environment env env') :
    C.Matches k (C.Both C.Outcomes) (g.formAnswer compile f vs env).run
      (g.formAnswer compile f ws env').run := by
  have length := operands.length_eq
  cases f with
  | quote => exact .ok (.value (.headD operands))
  | lambda =>
    cases operands with
    | nil => exact .fail _
    | cons params body =>
      exact Matches.attempt (serves.respected.makeClosure_matches around params body)
        fun _ made => .ok (.value made)
  | conditional =>
    cases operands with
    | nil => exact .fail _
    | cons c rest =>
      cases rest with
      | nil => exact .fail _
      | cons t rest =>
        cases rest with
        | nil =>
          exact compiles.before around c (choice_alike around t .nil (.cons c (.cons t .nil)))
        | cons e rest =>
          cases rest with
          | nil =>
            exact compiles.before around c
              (choice_alike around t e (.cons c (.cons t (.cons e .nil))))
          | cons _ _ =>
            dsimp only [Engine.formAnswer]
            rw [length]
            exact .fail _
  | sequence =>
    cases operands with
    | nil => exact .ok (.value .nil)
    | cons first rest =>
      exact compiles.before around first (sequels_alike around first rest)
  | exports cap =>
    have admitted := known.resolve_left id
    refine Matches.attempt (R := fun k => Forall₂ (Binding.Alike (C.likeness k)))
      (Matches.ofExcept (Binding.readAll_alike (.headD operands))) fun later bindings => ?_
    have le := C.grows later
    exact Matches.attempt
      (serves.declare_matches (le.admits admitted) (le.environment around) bindings)
      fun _ same => .ok (.value same)
  | host name =>
    refine Matches.attempt (Matches.ofHost
      (serves.respected.form (known.resolve_left id) operands around)) fun {k₁ a a'} later answer => ?_
    cases answer with
    | value same => exact .ok (.value same)
    | stream same => exact .ok (.stream same)
    | compile around same =>
      exact Matches.attempt (Matches.lift (compiles around same)) fun _ compiled =>
        .ok (.stream compiled)

/-! ### Expressions -/

theorem Serves.compileApplication_matches (serves : C.Serves g)
    {compile : Environment → Value → Effect σ Stream} (compiles : C.Compiles compile)
    {c d : Callable} (operator : Callable.Alike (C.likeness k) c d)
    (operands : Forall₂ (C.Values k) vs ws) (around : (C.likeness k).environment env env') :
    C.Matches k (C.Both fun k => Piece.Alike (C.likeness k))
      (g.compileApplication compile env vs c).run (g.compileApplication compile env' ws d).run := by
  cases operator with
  | native known => exact .ok (.application (.native known) operands)
  | closure same body outer => exact .ok (.application (.closure same body outer) operands)
  | expander known =>
    exact Matches.attempt (serves.expand_matches known operands around) fun _ same =>
      .ok (.instead same)
  | @form f known =>
    have applied : C.Matches k (C.Both C.Outcomes) (g.applyForm compile f vs env).run
        (g.applyForm compile f ws env').run := by
      unfold Engine.applyForm
      rw [operands.length_eq]
      refine Matches.attempt (validate_matches ..) fun later _ => ?_
      have le := C.grows later
      exact serves.formAnswer_matches compiles (le.knows known) (Value.Alike.monoAll le operands)
        (le.environment around)
    refine Matches.attempt applied fun _ outcome => ?_
    cases outcome with
    | value same => exact .ok (.value same)
    | stream same => exact .ok (.splice same)

theorem Serves.compileOne_matches (serves : C.Serves g)
    {compile : Environment → Value → Effect σ Stream} (compiles : C.Compiles compile)
    (alike : C.Values k v w) (around : (C.likeness k).environment env env') :
    C.Matches k (C.Both fun k => Piece.Alike (C.likeness k)) (g.compileOne compile env v).run
      (g.compileOne compile env' w).run := by
  have plain : ∀ {operator operator' operands operands'}, C.Values k operator operator' →
      Forall₂ (C.Values k) operands operands' →
      C.Matches k (C.Both fun k => Piece.Alike (C.likeness k))
        (Engine.resolveOperator env operator >>= g.compileApplication compile env operands).run
        (Engine.resolveOperator env' operator' >>= g.compileApplication compile env' operands').run :=
    fun operator operands => Matches.attempt
      (serves.respected.resolveOperator_matches around operator) fun later same =>
        serves.compileApplication_matches compiles same
          (Value.Alike.monoAll (C.grows later) operands) ((C.grows later).environment around)
  have itself := alike
  cases alike with
  | symbol name =>
    unfold Engine.compileOne
    dsimp only
    split
    · exact .ok (.value .nil)
    split
    · exact .ok (.value .truth)
    · exact Matches.attempt (serves.respected.lookup_matches around name) fun _ same =>
        .ok (.value same)
  | list all =>
    cases all with
    | nil => exact .ok (.value .nil)
    | cons operator operands =>
      have named := operator
      cases operator with
      | list items =>
        cases items with
        | nil => exact plain named operands
        | cons first rest =>
          exact .ok (.instead (Library.apply_alike (.native (.inl trivial)) (.cons named operands)))
      | _ => exact plain named operands
  | _ => exact .ok (.value itself)

theorem Serves.compileOnto_matches (serves : C.Serves g) (rounds : Nat) {s s' : Stream}
    (around : (C.likeness k).environment env env') (pending : Forall₂ (C.Values k) vs ws)
    (stream : C.Streams k s s') :
    C.Matches k C.Streams (g.compileOnto rounds env vs s) (g.compileOnto rounds env' ws s') := by
  induction rounds generalizing k env env' vs ws s s' with
  | zero => exact .exhausted
  | succ rounds ih =>
    cases pending with
    | nil => exact .pure stream
    | @cons v w vs ws first pending =>
      have compiles : C.Compiles fun env e => g.compileOnto rounds env [e] .empty :=
        fun around alike => ih around (.cons alike .nil) .empty
      rw [Engine.compileOnto_succ, Engine.compileOnto_succ]
      refine (serves.compileOne_matches compiles first around).bind fun {k₁ _ _} later piece => ?_
      have le := C.grows later
      have first := first.mono le
      have around := le.environment around
      have pending := Value.Alike.monoAll le pending
      have stream := stream.mono le
      cases piece with
      | error e => exact .pure (stream.pushError (e.withOrigin first))
      | ok piece =>
        cases piece with
        | value same => exact ih around pending (stream.pushValue same)
        | splice more =>
          unfold Engine.placed
          dsimp only
          rw [more.failed]
          split
          · exact .pure (stream.merge more)
          · exact ih around pending (stream.merge more)
        | instead same => exact ih around (.cons same pending) stream
        | application operator operands =>
          unfold Engine.placed
          dsimp only
          rw [operands.length_eq]
          exact ih around (List.rel_append (List.rel_reverse operands) pending)
            (stream.pushCall (.callable operator) _ first)

theorem Serves.compile_matches (serves : C.Serves g) : C.Compiles g.compile :=
  fun around alike => serves.compileOnto_matches _ around (.cons alike .nil) .empty

end Compilation

/-! ### Invocations and runs -/

section Runs

variable {k : C.Moment} {vs ws : List Value} {g : Engine σ}

theorem Serves.reply_matches (serves : C.Serves g) {c d : Callable}
    (callable : Callable.Alike (C.likeness k) c d) (args : Forall₂ (C.Values k) vs ws) :
    C.Matches k (C.Both C.Replies) (g.reply c vs).run (g.reply d ws).run := by
  have itself := callable
  cases callable with
  | form known => exact .fail _
  | expander known => exact .fail _
  | @native n known =>
    cases n with
    | primitive p => exact Matches.ofExcept (p.run_alike args)
    | host name => exact Matches.ofHost (serves.respected.native (known.resolve_left id) args)
  | closure same body around =>
    refine ⟨fun run => ?_⟩
    cases run
    obtain ⟨k', later, atLeft, atRight, inside⟩ := serves.respected.opens itself args
    exact ⟨_, rfl, k', later, atLeft, atRight,
      .ok (.answer (.compile inside (body.mono (C.grows later))))⟩

theorem Serves.invokeWithin_matches (serves : C.Serves g) (rounds : Nat) {c d : Callable}
    (callable : Callable.Alike (C.likeness k) c d) (args : Forall₂ (C.Values k) vs ws) :
    C.Matches k (C.Both C.Outcomes) (g.invokeWithin rounds c vs).run
      (g.invokeWithin rounds d ws).run := by
  induction rounds generalizing k c d vs ws with
  | zero => exact .exhausted
  | succ rounds ih =>
    rw [Engine.invokeWithin_succ, Engine.invokeWithin_succ]
    refine (serves.reply_matches callable args).bind fun _ reply => ?_
    cases reply with
    | error e => exact .pure (.error e)
    | ok reply =>
      cases reply with
      | invoke callable args => exact ih callable args
      | answer answer =>
        cases answer with
        | value same => exact .pure (.ok (.value same))
        | stream same => exact .pure (.ok (.stream same))
        | compile around same =>
          exact (serves.compile_matches around same).bind fun _ compiled =>
            .pure (.ok (.stream compiled))

theorem Serves.perform_matches (serves : C.Serves g) {o o' : Operation}
    (operation : o.Alike (C.likeness k) o') (args : Forall₂ (C.Values k) vs ws) :
    C.Matches k (C.Both C.Outcomes) (g.perform o vs).run (g.perform o' ws).run := by
  have compiled : ∀ {env env' v w}, (C.likeness k).environment env env' → C.Values k v w →
      C.Matches k (C.Both C.Outcomes) (do return .stream (← g.compile env v) : Attempt σ Outcome).run
        (do return .stream (← g.compile env' w) : Attempt σ Outcome).run :=
    fun around alike => Matches.attempt (Matches.lift (serves.compile_matches around alike))
      fun _ same => .ok (.stream same)
  cases operation with
  | callable same => exact serves.invokeWithin_matches _ same args
  | branch around consequent alternative =>
    have condition : vs.head?.any Value.isTrue = ws.head?.any Value.isTrue := by
      cases args with
      | nil => rfl
      | cons first _ => exact first.isTrue
    refine compiled around ?_
    rw [condition]
    split
    · exact consequent
    · exact alternative
  | sequel around next => exact compiled around next

/-- A frame leads to points of the two runs that are alike again. -/
theorem Serves.step_matches (serves : C.Serves g) {m m' : Machine}
    (machine : m.Alike (C.likeness k) m') : C.Matches k C.Advances (g.step m) (g.step m') := by
  obtain ⟨frames, stack, trace, cap⟩ := m
  obtain ⟨frames', stack', trace', cap'⟩ := m'
  have front := machine.frames
  have values := machine.stack
  cases front with
  | nil => exact .pure (.done machine.finish)
  | @cons frame frame' frames frames' first rest =>
    cases first with
    | value same =>
      exact .pure (Machine.Alike.settle ⟨rest, .cons same values, machine.trace, machine.cap⟩)
    | error same => exact .pure (machine.fail same)
    | @call o o' argc origin origin' operation same =>
      have args := List.forall₂_take argc values
      unfold Engine.step
      dsimp only
      rw [args.length_eq]
      split
      · exact .pure (machine.fail (.ofFault (.refl _)))
      · refine (serves.perform_matches operation (List.rel_reverse args)).bind fun later ended => ?_
        have le := C.grows later
        have entered := machine.enter rest argc same
        exact .pure ((entered.mono le).answered ended)

theorem Serves.finishWithin_matches (serves : C.Serves g) (rounds : Nat) {m m' : Machine}
    (machine : m.Alike (C.likeness k) m') :
    C.Matches k (C.Both C.Values) (g.finishWithin rounds m) (g.finishWithin rounds m') := by
  induction rounds generalizing k m m' with
  | zero => exact .exhausted
  | succ rounds ih =>
    refine (serves.step_matches machine).bind fun _ advance => ?_
    cases advance with
    | pending machine => exact ih machine
    | done ended => exact .pure ended

theorem Serves.execute_matches (serves : C.Serves g) {s s' : Stream} (stream : C.Streams k s s')
    (cap : BacktraceCap) : C.Matches k (C.Both C.Values) (g.execute s cap) (g.execute s' cap) :=
  serves.finishWithin_matches _ (.start stream cap)

theorem Serves.evaluateOnce_matches (serves : C.Serves g) {env env' : Environment} {v w : Value}
    (around : (C.likeness k).environment env env') (alike : C.Values k v w) (cap : BacktraceCap) :
    C.Matches k (C.Both C.Values) (g.evaluateOnce env v cap) (g.evaluateOnce env' w cap) :=
  (serves.compile_matches around alike).bind fun _ stream => serves.execute_matches stream cap

/-- Whatever its fuel, an engine of a host that respects the correspondence serves it. -/
theorem Respected.serves {host : Host σ} (respected : C.Respected host) (fuel : Nat) :
    C.Serves (.withFuel host fuel) := by
  induction fuel with
  | zero => exact ⟨respected, fun _ _ _ => .exhausted⟩
  | succ fuel ih => exact ⟨respected, fun cap around alike => ih.evaluateOnce_matches around alike cap⟩

theorem Serves.runBatch_matches (serves : C.Serves g) (n : Nat) {m m' : Machine}
    (machine : m.Alike (C.likeness k) m') :
    C.Matches k C.Advances (g.runBatch n m) (g.runBatch n m') := by
  induction n generalizing k m m' with
  | zero => exact .pure (.pending machine)
  | succ n ih =>
    rw [Engine.runBatch_succ, Engine.runBatch_succ]
    refine (serves.step_matches machine).bind fun _ advance => ?_
    cases advance with
    | pending machine => exact ih machine
    | done ended => exact .pure (.done ended)

/-- A slice takes both runs through as many batches, and ends the one if it ends the other. -/
theorem Serves.runSlice_matches (serves : C.Serves g) (clock : Clock) (budget batch rounds : Nat)
    (round : Nat) {m m' : Machine} (machine : m.Alike (C.likeness k) m') :
    C.Matches k C.Advances (g.runSlice clock budget batch rounds round m)
      (g.runSlice clock budget batch rounds round m') := by
  induction rounds generalizing k round m m' with
  | zero => exact .exhausted
  | succ rounds ih =>
    rw [Engine.runSlice_succ, Engine.runSlice_succ]
    refine (serves.runBatch_matches batch machine).bind fun _ advance => ?_
    cases advance with
    | done ended => exact .pure (.done ended)
    | pending machine =>
      unfold Engine.furtherBatches
      dsimp only
      split
      · exact .pure (.pending machine)
      · exact ih _ machine

/-- What an engine answers in the one world it answers in the other, with the same fuel. -/
theorem Respected.answers {host : Host σ} (respected : C.Respected host)
    {R : C.Moment → α → β → Prop} {f : Engine σ → Effect σ α} {f' : Engine σ → Effect σ β} {a : α}
    {W : World σ} (answers : host.Answers f (C.left k) a W)
    (same : ∀ g, C.Serves g → C.Matches k R (f g) (f' g)) :
    ∃ k' b, C.Later k k' ∧ C.left k' = W ∧ host.Answers f' (C.right k) b (C.right k') ∧
      R k' a b := by
  obtain ⟨fuel, run⟩ := answers
  obtain ⟨⟨b, w⟩, ends, k', later, atLeft, atRight, related⟩ :=
    (same _ (respected.serves fuel)).answer run
  cases atRight
  exact ⟨k', b, later, atLeft, ⟨fuel, ends⟩, related⟩

theorem Respected.compile {host : Host σ} (respected : C.Respected host) {env env' : Environment}
    {v w : Value} {s : Stream} {W : World σ} (around : (C.likeness k).environment env env')
    (alike : C.Values k v w) (answers : host.Answers (·.compile env v) (C.left k) s W) :
    ∃ k' s', C.Later k k' ∧ C.left k' = W ∧
      host.Answers (·.compile env' w) (C.right k) s' (C.right k') ∧ C.Streams k' s s' :=
  respected.answers answers fun _ serves => serves.compile_matches around alike

theorem Respected.execute {host : Host σ} (respected : C.Respected host) {s s' : Stream}
    {cap : BacktraceCap} {r : Except Error Value} {W : World σ} (stream : C.Streams k s s')
    (answers : host.Answers (·.execute s cap) (C.left k) r W) :
    ∃ k' r', C.Later k k' ∧ C.left k' = W ∧
      host.Answers (·.execute s' cap) (C.right k) r' (C.right k') ∧ C.Both C.Values k' r r' :=
  respected.answers answers fun _ serves => serves.execute_matches stream cap

/-- A slice of the one run is a slice of the other, under the same clock. -/
theorem Respected.slice {host : Host σ} (respected : C.Respected host) {clock : Clock}
    {budget batch round n : Nat} {calls : List Invocation} {m m' : Machine} {a : Advance}
    {W : World σ} (slice : host.Slice clock budget batch round n calls m (C.left k) a W)
    (machine : m.Alike (C.likeness k) m') :
    ∃ k' n' calls' a', C.Later k k' ∧ C.left k' = W ∧
      host.Slice clock budget batch round n' calls' m' (C.right k) a' (C.right k') ∧
      C.Advances k' a a' := by
  have same : ∀ g, C.Serves g → C.Matches k C.Advances
      (g.runSlice clock budget batch g.fuel round m)
      (g.runSlice clock budget batch g.fuel round m') :=
    fun g serves => serves.runSlice_matches clock budget batch g.fuel round machine
  obtain ⟨k', a', later, atLeft, answers, same⟩ :=
    respected.answers (Host.slice_iff.mpr ⟨n, calls, slice⟩) same
  obtain ⟨n', calls', slice'⟩ := Host.slice_iff.mp answers
  exact ⟨k', n', calls', a', later, atLeft, slice', same⟩

/-- Runs of machines that are alike end after as many slices, alike. -/
theorem Respected.sliced {host : Host σ} (respected : C.Respected host) {clocks : Nat → Clock}
    {budget batch i j n : Nat} {calls : List Invocation} {m m' : Machine} {r : Except Error Value}
    {w W : World σ} (sliced : host.Sliced clocks budget batch i j n calls m w r W)
    (start : C.left k = w) (machine : m.Alike (C.likeness k) m') :
    ∃ k' n' calls' r', C.Later k k' ∧ C.left k' = W ∧
      host.Sliced clocks budget batch i j n' calls' m' (C.right k) r' (C.right k') ∧
      C.Both C.Values k' r r' := by
  induction sliced generalizing k m' with
  | last slice =>
    subst start
    obtain ⟨k', n', calls', a', later, atLeft, slice', same⟩ := respected.slice slice machine
    cases same with
    | done same => exact ⟨k', n', calls', _, later, atLeft, .last slice', same⟩
  | more slice _ ih =>
    subst start
    obtain ⟨k₁, n', calls', a', later, atLeft, slice', same⟩ := respected.slice slice machine
    cases same with
    | pending machine =>
      obtain ⟨k', n'', more, r', after, atEnd, sliced', same⟩ := ih atLeft machine
      exact ⟨k', _, _, r', C.trans later after, atEnd, .more slice' sliced', same⟩

end Runs

end Correspondence

end CooperativeLisp

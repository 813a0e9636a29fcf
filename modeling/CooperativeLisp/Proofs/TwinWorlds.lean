import CooperativeLisp.Proofs.Compiled
import CooperativeLisp.Proofs.Twins

/-!
Worlds that are twins: their roots differ in the extra names alone. Streams and machines are twins if
all they hold is and if what they have still to compile mentions none of those names. Main statements:
opening a scope, making a closure and declaring a name keep worlds twins, and look-ups find twins.
Computations match if they lead from such worlds to such worlds and end together or not at all.
-/

namespace CooperativeLisp

open List (Forall₂)

variable {σ α β α' β' : Type}

namespace Environment.Within

variable {root : ScopeId} {env : Environment}

theorem outermost (root : ScopeId) : Environment.Within root ⟨root, []⟩ :=
  ⟨[], rfl, nofun⟩

theorem root_eq (within : env.Within root) : env.root = ⟨root, []⟩ := by
  obtain ⟨scope, outer⟩ := env
  obtain ⟨inner, chain, -⟩ := within
  have last : (scope :: outer).getLastD root = root := by
    rw [show scope :: outer = inner ++ [root] from chain]
    simp
  rw [List.getLastD_cons] at last
  rw [Environment.root, Environment.rootScope, last]

theorem enter (within : env.Within root) {x : ScopeId} (later : root < x) :
    Environment.Within root ⟨x, env.chain⟩ := by
  obtain ⟨inner, chain, all⟩ := within
  refine ⟨x :: inner, ?_, List.forall_mem_cons.mpr ⟨later, all⟩⟩
  show x :: env.chain = x :: (inner ++ [root])
  rw [chain]

end Environment.Within

namespace Twinning

variable (τ : Twinning)

/-- Two worlds whose scopes from the root on bind the same names to twins, but for the extra names,
which the second root alone binds. -/
structure Worlds (w w' : World σ) : Prop where
  closures : w.closures = w'.closures
  opened : w.scopes.tables.size = w'.scopes.tables.size
  rooted : τ.root < w.scopes.tables.size
  bound : ∀ {x name}, τ.root ≤ x → x ≠ τ.root ∨ name ∉ τ.extras →
    Option.Rel (Value.Twin τ) (w.scopes.local? x name) (w'.scopes.local? x name)
  extra : ∀ {name}, name ∈ τ.extras → w.scopes.local? τ.root name = none ∧
    w'.scopes.local? τ.root name = τ.extras[name]?

/-- Whatever a scope behind the root binds it still binds later. -/
structure Later (w w' : World σ) : Prop where
  bound : ∀ {x name}, τ.root < x → (w.scopes.local? x name).isSome →
    (w'.scopes.local? x name).isSome

/-- A name that means the same on both sides: it is not among the extra ones, or the scope of the
environment binds it. -/
def Sees (w : World σ) (env : Environment) (name : String) : Prop :=
  name ∉ τ.extras ∨ τ.root < env.scope ∧ (w.scopes.local? env.scope name).isSome

/-- The environment of a disjunction's test. -/
def Chooses (w : World σ) (env : Environment) : Prop :=
  τ.root < env.scope ∧ ∀ name ∈ ["v", "k"], (w.scopes.local? env.scope name).isSome

/-- An expression that may be compiled in an environment: a plain one, or the test of a disjunction
or a part of it where its names are bound. -/
inductive Code (w : World σ) (env : Environment) : Value → Prop
  | plain {e : Value} : τ.Plain e → Code w env e
  | test : τ.Chooses w env → Code w env Library.test
  | operand : τ.Chooses w env → Code w env (.symbol "v")
  | rest : τ.Chooses w env → Code w env (.list [.symbol "k", Library.self])

/-- Operands that may be compiled behind a callable. Only two of the expressions that the library
builds have operands which are not plain, and these have its own forms for operators. -/
inductive Fits (w : World σ) (env : Environment) : Callable → List Value → Prop
  | plain {c : Callable} {operands : List Value} : (∀ e ∈ operands, τ.Plain e) →
      Fits w env c operands
  | chooser : Fits w env (.form .lambda) [.list [Library.self, .symbol "v", .symbol "k"], Library.test]
  | test : τ.Chooses w env →
      Fits w env (.form .conditional) [.symbol "v", .symbol "v", .list [.symbol "k", Library.self]]

/-- Both ends are results that are related, or failures that are twins. -/
inductive Ends (R : α → β → Prop) : Except Error α → Except Error β → Prop
  | ok {a : α} {b : β} : R a b → Ends R (.ok a) (.ok b)
  | error {e e' : Error} : e.Twin τ e' → Ends R (.error e) (.error e')

end Twinning

section Relations

variable (τ : Twinning) (w : World σ)

inductive Operation.Twin : Operation → Operation → Prop
  | callable {c d : Callable} : c.Twin τ d → Twin (.callable c) (.callable d)
  | branch {env : Environment} {t e : Value} : env.Within τ.root → τ.Code w env t →
      τ.Code w env e → Twin (.branch env t e) (.branch env t e)
  | sequel {env : Environment} {next : Value} : env.Within τ.root → τ.Code w env next →
      Twin (.sequel env next) (.sequel env next)

inductive Frame.Twin : Frame → Frame → Prop
  | value {u v : Value} : u.Twin τ v → Twin (.value u) (.value v)
  | call {operation operation' : Operation} {argc : Nat} {origin : Value} :
      operation.Twin τ w operation' →
      Twin (.call operation argc origin) (.call operation' argc origin)
  | error {e e' : Error} : e.Twin τ e' → Twin (.error e) (.error e')

structure Stream.Twin (s s' : Stream) : Prop where
  frames : Forall₂ (Frame.Twin τ w) s.frames s'.frames
  failed : s.failed = s'.failed

inductive Outcome.Twin : Outcome → Outcome → Prop
  | value {u v : Value} : u.Twin τ v → Twin (.value u) (.value v)
  | stream {s s' : Stream} : s.Twin τ w s' → Twin (.stream s) (.stream s')

inductive Reply.Twin : Reply → Reply → Prop
  | value {u v : Value} : u.Twin τ v → Twin (.answer (.value u)) (.answer (.value v))
  | compile {env : Environment} {e : Value} : env.Within τ.root → τ.Code w env e →
      Twin (.answer (.compile env e)) (.answer (.compile env e))
  | invoke {c d : Callable} {us vs : List Value} : c.Twin τ d → Forall₂ (Value.Twin τ) us vs →
      Twin (.invoke c us) (.invoke d vs)

inductive Piece.Twin (env : Environment) : Piece → Piece → Prop
  | value {u v : Value} : u.Twin τ v → Twin env (.value u) (.value v)
  | splice {s s' : Stream} : s.Twin τ w s' → Twin env (.splice s) (.splice s')
  | instead {e : Value} : τ.Code w env e → Twin env (.instead e) (.instead e)
  | application {c d : Callable} {operands : List Value} : c.Twin τ d →
      (∀ e ∈ operands, τ.Code w env e) → Twin env (.application c operands) (.application d operands)

/-- Machines between two frames that are twins in all they hold, and whose traces and bounds agree
as far as backtraces are compared. -/
structure Machine.Twin (m m' : Machine) : Prop where
  frames : Forall₂ (Frame.Twin τ w) m.frames m'.frames
  stack : Forall₂ (Value.Twin τ) m.stack m'.stack
  trace : m.trace.take τ.entries = m'.trace.take τ.entries
  cap : min m.cap τ.entries = min m'.cap τ.entries

inductive Advance.Twin : Advance → Advance → Prop
  | pending {m m' : Machine} : m.Twin τ w m' → Twin (.pending m) (.pending m')
  | done {r r' : Except Error Value} : τ.Ends (Value.Twin τ) r r' → Twin (.done r) (.done r')

end Relations

variable {τ : Twinning} {w w₁ w₂ : World σ} {env : Environment}

/-! ### Later worlds -/

namespace Twinning

theorem Later.refl (w : World σ) : τ.Later w w := ⟨fun _ => id⟩

theorem Later.trans (first : τ.Later w w₁) (second : τ.Later w₁ w₂) : τ.Later w w₂ :=
  ⟨fun behind bound => second.bound behind (first.bound behind bound)⟩

theorem Chooses.later (later : τ.Later w w₁) (chooses : τ.Chooses w env) : τ.Chooses w₁ env :=
  ⟨chooses.1, fun name member => later.bound chooses.1 (chooses.2 name member)⟩

theorem Code.later (later : τ.Later w w₁) {e : Value} (code : τ.Code w env e) :
    τ.Code w₁ env e := by
  cases code with
  | plain plain => exact .plain plain
  | test chooses => exact .test (chooses.later later)
  | operand chooses => exact .operand (chooses.later later)
  | rest chooses => exact .rest (chooses.later later)

theorem Fits.later (later : τ.Later w w₁) {c : Callable} {operands : List Value}
    (fits : τ.Fits w env c operands) : τ.Fits w₁ env c operands := by
  cases fits with
  | plain plain => exact .plain plain
  | chooser => exact .chooser
  | test chooses => exact .test (chooses.later later)

/-- Only a closure of the library's own is made of operands that are not to be compiled where they
stand. -/
theorem Fits.code {c : Callable} {operands : List Value} (fits : τ.Fits w env c operands)
    (other : c ≠ .form .lambda) : ∀ e ∈ operands, τ.Code w env e := by
  cases fits with
  | plain plain => exact fun e member => .plain (plain e member)
  | chooser => exact absurd rfl other
  | test chooses =>
    exact List.forall_mem_cons.mpr ⟨.operand chooses, List.forall_mem_cons.mpr
      ⟨.operand chooses, List.forall_mem_singleton.mpr (.rest chooses)⟩⟩

theorem Fits.all_plain {c : Callable} {operands : List Value} (fits : τ.Fits w env c operands)
    (noLambda : c ≠ .form .lambda) (noCondition : c ≠ .form .conditional) :
    ∀ e ∈ operands, τ.Plain e := by
  cases fits with
  | plain plain => exact plain
  | chooser => exact absurd rfl noLambda
  | test _ => exact absurd rfl noCondition

end Twinning

theorem Operation.Twin.later (later : τ.Later w w₁) {o o' : Operation} (twin : o.Twin τ w o') :
    o.Twin τ w₁ o' := by
  cases twin with
  | callable same => exact .callable same
  | branch within t e => exact .branch within (t.later later) (e.later later)
  | sequel within next => exact .sequel within (next.later later)

theorem Frame.Twin.later (later : τ.Later w w₁) {f f' : Frame} (twin : f.Twin τ w f') :
    f.Twin τ w₁ f' := by
  cases twin with
  | value same => exact .value same
  | call operation => exact .call (operation.later later)
  | error same => exact .error same

theorem Stream.Twin.later (later : τ.Later w w₁) {s s' : Stream} (twin : s.Twin τ w s') :
    s.Twin τ w₁ s' :=
  ⟨twin.frames.imp fun _ _ => Frame.Twin.later later, twin.failed⟩

theorem Machine.Twin.later (later : τ.Later w w₁) {m m' : Machine} (twin : m.Twin τ w m') :
    m.Twin τ w₁ m' :=
  ⟨twin.frames.imp fun _ _ => Frame.Twin.later later, twin.stack, twin.trace, twin.cap⟩

/-! ### Streams and machines -/

namespace Stream.Twin

variable {s s' t t' : Stream} {u v : Value}

theorem empty : Stream.empty.Twin τ w Stream.empty := ⟨.nil, rfl⟩

theorem pushValue (twin : s.Twin τ w s') (same : u.Twin τ v) :
    (s.pushValue u).Twin τ w (s'.pushValue v) :=
  ⟨.cons (.value same) twin.frames, twin.failed⟩

theorem pushCall {o o' : Operation} (twin : s.Twin τ w s') (operation : o.Twin τ w o') (argc : Nat)
    (origin : Value) : (s.pushCall o argc origin).Twin τ w (s'.pushCall o' argc origin) :=
  ⟨.cons (.call operation) twin.frames, twin.failed⟩

theorem pushError {e e' : Error} (twin : s.Twin τ w s') (same : e.Twin τ e') :
    (s.pushError e).Twin τ w (s'.pushError e') :=
  ⟨.cons (.error same) twin.frames, rfl⟩

theorem merge (twin : s.Twin τ w s') (other : t.Twin τ w t') :
    (s.merge t).Twin τ w (s'.merge t') :=
  ⟨List.rel_append other.frames twin.frames, by
    rw [Stream.merge, Stream.merge, twin.failed, other.failed]⟩

end Stream.Twin

theorem Twinning.Ends.same {R : α → β → Prop} (f : Fault) :
    τ.Ends R (.error (.ofFault f)) (.error (.ofFault f)) :=
  .error (.ofFault (.refl f))

namespace Machine.Twin

variable {m m' : Machine}

theorem start {s s' : Stream} (twin : s.Twin τ w s') {cap cap' : BacktraceCap}
    (caps : τ.caps cap cap') : (Machine.start s cap).Twin τ w (.start s' cap') :=
  ⟨twin.frames, .nil, rfl, τ.caps_agree caps⟩

theorem finish (twin : m.Twin τ w m') : τ.Ends (Value.Twin τ) m.finish m'.finish := by
  obtain ⟨frames, stack, trace, cap⟩ := m
  obtain ⟨frames', stack', trace', cap'⟩ := m'
  have values := twin.stack
  cases values with
  | nil => exact .same _
  | cons first rest =>
    cases rest with
    | nil => exact .ok first
    | cons second rest =>
      simp only [Machine.finish, List.length_cons, rest.length_eq]
      exact .same _

theorem fail (twin : m.Twin τ w m') {e e' : Error} (same : e.Twin τ e') :
    (m.fail e).Twin τ w (m'.fail e') :=
  .done (.error (same.withTrace twin.trace twin.cap))

theorem settle (twin : m.Twin τ w m') : m.settle.Twin τ w m'.settle := by
  unfold Machine.settle
  rw [isEmpty_eq_of_forall₂ twin.frames]
  split
  · exact .done twin.finish
  · exact .pending twin

theorem enter (twin : m.Twin τ w m') {frames frames' : List Frame}
    (same : Forall₂ (Frame.Twin τ w) frames frames') (argc : Nat) (origin : Value) :
    (m.enter frames argc origin).Twin τ w (m'.enter frames' argc origin) where
  frames := same
  stack := List.forall₂_drop argc twin.stack
  trace := take_take_agree (take_append_congr [origin] twin.trace) twin.cap
  cap := twin.cap

theorem answered (twin : m.Twin τ w m') {r r' : Except Error Outcome}
    (same : τ.Ends (Outcome.Twin τ w) r r') : (m.answered r).Twin τ w (m'.answered r') := by
  cases same with
  | error e => exact twin.fail e
  | ok outcome =>
    refine settle ?_
    cases outcome with
    | value v => exact ⟨twin.frames, .cons v twin.stack, twin.trace, twin.cap⟩
    | stream s =>
      exact ⟨List.rel_append s.frames twin.frames, twin.stack, twin.trace, twin.cap⟩

end Machine.Twin

/-! ### Computations in lockstep -/

namespace Twinning

/-- In worlds that are twins the two computations both run out of fuel, or both answer, with worlds
that are twins and answers that are related then. -/
structure Matches (τ : Twinning) (w : World σ) (R : World σ → α → β → Prop) (x : Effect σ α)
    (y : Effect σ β) : Prop where
  answer : ∀ {w'}, τ.Worlds w w' →
    Option.Rel (fun p q => τ.Later w p.2 ∧ τ.Worlds p.2 q.2 ∧ R p.2 p.1 q.1) (x w) (y w')

/-- Both ends are results that are related then, or failures that are twins. -/
def Both (τ : Twinning) (R : World σ → α → β → Prop) (w : World σ) :
    Except Error α → Except Error β → Prop :=
  τ.Ends (R w)

def Values (τ : Twinning) (_ : World σ) : Value → Value → Prop :=
  Value.Twin τ

def Callables (τ : Twinning) (_ : World σ) : Callable → Callable → Prop :=
  Callable.Twin τ

namespace Matches

variable {R : World σ → α → β → Prop} {S : World σ → α' → β' → Prop}

theorem pure {a : α} {b : β} (related : R w a b) :
    τ.Matches w R (Pure.pure a : Effect σ α) (Pure.pure b : Effect σ β) :=
  ⟨fun worlds => .some ⟨.refl w, worlds, related⟩⟩

theorem exhausted : τ.Matches w R (Effect.exhausted : Effect σ α) (Effect.exhausted : Effect σ β) :=
  ⟨fun _ => .none⟩

theorem bind {x : Effect σ α} {y : Effect σ β} {f : α → Effect σ α'} {g : β → Effect σ β'}
    (first : τ.Matches w R x y)
    (rest : ∀ {w₁ a b}, τ.Later w w₁ → R w₁ a b → τ.Matches w₁ S (f a) (g b)) :
    τ.Matches w S (x >>= f) (y >>= g) := by
  refine ⟨fun {w'} worlds => ?_⟩
  have here := first.answer worlds
  show Option.Rel _ ((x w).bind fun p => f p.1 p.2) ((y w').bind fun q => g q.1 q.2)
  revert here
  generalize x w = left
  generalize y w' = right
  intro here
  cases here with
  | none => exact .none
  | @some p q leads =>
    obtain ⟨later, worlds, related⟩ := leads
    have there := (rest later related).answer worlds
    dsimp only [Option.bind_some]
    revert there
    generalize f p.1 p.2 = left
    generalize g q.1 q.2 = right
    intro there
    cases there with
    | none => exact .none
    | some leads => exact .some ⟨later.trans leads.1, leads.2⟩

theorem attempt {x : Attempt σ α} {y : Attempt σ β} {f : α → Attempt σ α'} {g : β → Attempt σ β'}
    (first : τ.Matches w (τ.Both R) x.run y.run)
    (rest : ∀ {w₁ a b}, τ.Later w w₁ → R w₁ a b → τ.Matches w₁ (τ.Both S) (f a).run (g b).run) :
    τ.Matches w (τ.Both S) (x >>= f).run (y >>= g).run :=
  Matches.bind first fun later ended => by
    cases ended with
    | ok related => exact rest later related
    | error twin => exact Matches.pure (Ends.error twin)

theorem ofExcept {x : Except Error α} {y : Except Error β} (same : τ.Both R w x y) :
    τ.Matches w (τ.Both R) (Attempt.ofExcept x : Attempt σ α).run
      (Attempt.ofExcept y : Attempt σ β).run :=
  Matches.pure same

/-- A check that asks no world has one outcome. -/
theorem check {x : Except Error α} {R : World σ → α → α → Prop} (ok : ∀ {a}, x = .ok a → R w a a) :
    τ.Matches w (τ.Both R) (Attempt.ofExcept x : Attempt σ α).run
      (Attempt.ofExcept x : Attempt σ α).run := by
  refine .ofExcept ?_
  cases x with
  | ok a => exact .ok (ok rfl)
  | error e => exact .error ⟨.refl _, rfl⟩

theorem ok {a : α} {b : β} (related : R w a b) :
    τ.Matches w (τ.Both R) (Pure.pure a : Attempt σ α).run (Pure.pure b : Attempt σ β).run :=
  Matches.pure (Ends.ok related)

theorem fail (f : Fault) :
    τ.Matches w (τ.Both R) (Attempt.fail f : Attempt σ α).run (Attempt.fail f : Attempt σ β).run :=
  Matches.pure (Ends.same f)

theorem lift {x : Effect σ α} {y : Effect σ β} (same : τ.Matches w R x y) :
    τ.Matches w (τ.Both R) (liftM x : Attempt σ α).run (liftM y : Attempt σ β).run :=
  Matches.bind same fun _ related => Matches.pure (Ends.ok related)

end Matches

/-! ### What engines do to worlds -/

theorem Later.enter (w : World σ) (c : Closure) (args : List Value) :
    τ.Later w (w.enter c args).2 := by
  refine ⟨fun {x name} _ bound => ?_⟩
  have old : x < w.scopes.tables.size := by
    by_contra unopened
    rw [Scopes.local?_unopened (Nat.not_lt.mp unopened)] at bound
    cases bound
  rwa [w.enter_old c args old]

namespace Worlds

variable {w' : World σ} {name : String}

theorem find? (worlds : τ.Worlds w w') (free : name ∉ τ.extras) {inner : List ScopeId}
    (behind : ∀ x ∈ inner, τ.root < x) :
    Option.Rel (Value.Twin τ) (w.scopes.find? name (inner ++ [τ.root]))
      (w'.scopes.find? name (inner ++ [τ.root])) := by
  have step : ∀ {x : ScopeId} {outer : List ScopeId}, τ.root ≤ x →
      Option.Rel (Value.Twin τ) (w.scopes.find? name outer) (w'.scopes.find? name outer) →
      Option.Rel (Value.Twin τ) (w.scopes.find? name (x :: outer))
        (w'.scopes.find? name (x :: outer)) := by
    intro x outer behind further
    have here := worlds.bound behind (Or.inr free)
    unfold Scopes.find?
    revert here
    generalize w.scopes.local? x name = left
    generalize w'.scopes.local? x name = right
    intro here
    cases here with
    | none => exact further
    | some same => exact .some same
  induction inner with
  | nil => exact step (Nat.le_refl _) .none
  | cons x inner ih =>
    obtain ⟨here, more⟩ := List.forall_mem_cons.mp behind
    exact step (Nat.le_of_lt here) (ih more)

theorem get? (worlds : τ.Worlds w w') (within : env.Within τ.root) (sees : τ.Sees w env name) :
    Option.Rel (Value.Twin τ) (w.scopes.get? env name) (w'.scopes.get? env name) := by
  rcases sees with free | ⟨behind, bound⟩
  · obtain ⟨inner, chain, all⟩ := within
    unfold Scopes.get?
    rw [chain]
    exact worlds.find? free all
  · have here : Option.Rel (Value.Twin τ) (w.scopes.local? env.scope name)
        (w'.scopes.local? env.scope name) :=
      worlds.bound (Nat.le_of_lt behind) (Or.inl (Nat.ne_of_gt behind))
    unfold Scopes.get? Environment.chain Scopes.find?
    revert here bound
    generalize w.scopes.local? env.scope name = left
    generalize w'.scopes.local? env.scope name = right
    intro bound here
    cases here with
    | none => cases bound
    | some same => exact .some same

theorem binds (worlds : τ.Worlds w w') (free : name ∉ τ.extras) :
    w.scopes.binds ⟨τ.root, []⟩ name = w'.scopes.binds ⟨τ.root, []⟩ name := by
  have here := worlds.bound (Nat.le_refl _) (Or.inr free)
  rw [Scopes.binds_eq, Scopes.binds_eq]
  revert here
  generalize w.scopes.local? _ name = left
  generalize w'.scopes.local? _ name = right
  intro here
  cases here <;> rfl

theorem makeClosure (worlds : τ.Worlds w w') :
    τ.Worlds { w with closures := w.closures + 1 } { w' with closures := w'.closures + 1 } :=
  ⟨congrArg (· + 1) worlds.closures, worlds.opened, worlds.rooted, worlds.bound, worlds.extra⟩

theorem enter (worlds : τ.Worlds w w') {c : Closure} (owns : τ.Owns c) {args args' : List Value}
    (all : Forall₂ (Value.Twin τ) args args') : τ.Worlds (w.enter c args).2 (w'.enter c args').2 where
  closures := worlds.closures
  opened := by rw [w.enter_size, w'.enter_size, worlds.opened]
  rooted := by
    rw [w.enter_size]
    exact Nat.lt_succ_of_lt worlds.rooted
  bound {x name} behind apart := by
    by_cases new : x = w.scopes.tables.size
    · have new' : x = w'.scopes.tables.size := new.trans worlds.opened
      have own : Value.Twin τ (.callable (.closure c)) (.callable (.closure c)) :=
        .callable (.closure owns)
      have left : (w.enter c args).2.scopes.local? x name =
          (Table.ofEntries (c.arguments args))[name]? := by rw [new, w.enter_new]
      have right : (w'.enter c args').2.scopes.local? x name =
          (Table.ofEntries (c.arguments args'))[name]? := by rw [new', w'.enter_new]
      rw [left, right]
      exact Table.ofEntries_kin (Closure.arguments_kin own rfl rfl .nil .list all) name
    · rw [w.enter_other c args new, w'.enter_other c args' (worlds.opened ▸ new)]
      exact worlds.bound behind apart
  extra {name} hidden := by
    have old : τ.root < w'.scopes.tables.size := worlds.opened ▸ worlds.rooted
    rw [w.enter_old c args worlds.rooted, w'.enter_old c args' old]
    exact worlds.extra hidden

/-- A declared name is bound on both sides or on neither. -/
theorem bind (worlds : τ.Worlds w w') (free : name ∉ τ.extras) {v v' : Value} (twin : v.Twin τ v') :
    τ.Later w (w.bind ⟨τ.root, []⟩ name v).2 ∧
      τ.Worlds (w.bind ⟨τ.root, []⟩ name v).2 (w'.bind ⟨τ.root, []⟩ name v').2 ∧
      τ.Ends (fun _ _ => True) (w.bind ⟨τ.root, []⟩ name v).1 (w'.bind ⟨τ.root, []⟩ name v').1 := by
  unfold World.bind Scopes.bind
  rw [worlds.binds free]
  by_cases marker : Symbol.isReserved name = true
  · simp only [marker, if_true]
    exact ⟨.refl w, worlds, .same _⟩
  by_cases twice : w'.scopes.binds ⟨τ.root, []⟩ name = true
  · have atRoot : (Environment.isRoot ⟨τ.root, []⟩ && w'.scopes.binds ⟨τ.root, []⟩ name) = true := by
      rw [twice]
      rfl
    simp only [marker, atRoot, if_true]
    exact ⟨.refl w, worlds, .same _⟩
  · have fresh : (Environment.isRoot ⟨τ.root, []⟩ && w'.scopes.binds ⟨τ.root, []⟩ name) = false := by
      rw [Bool.eq_false_iff.mpr twice, Bool.and_false]
    simp only [marker, fresh]
    refine ⟨⟨fun {x other} behind bound => ?_⟩, ?_, .ok trivial⟩
    · show ((w.scopes.define τ.root name v).local? x other).isSome
      rw [Scopes.local?_define, if_neg fun same => Nat.ne_of_gt behind same.1]
      exact bound
    · refine ⟨worlds.closures, ?_, ?_, fun {x other} behind apart => ?_, fun {other} hidden => ?_⟩
      · show (w.scopes.define τ.root name v).tables.size = (w'.scopes.define τ.root name v').tables.size
        rw [Scopes.tables_define, Scopes.tables_define, worlds.opened]
      · show τ.root < (w.scopes.define τ.root name v).tables.size
        rw [Scopes.tables_define]
        exact worlds.rooted
      · show Option.Rel _ ((w.scopes.define τ.root name v).local? x other)
          ((w'.scopes.define τ.root name v').local? x other)
        rw [Scopes.local?_define, Scopes.local?_define, ← worlds.opened]
        split
        · exact .some twin
        · exact worlds.bound behind apart
      · show (w.scopes.define τ.root name v).local? τ.root other = none ∧
          (w'.scopes.define τ.root name v').local? τ.root other = _
        have apart : other ≠ name := by
          rintro rfl
          exact free hidden
        rw [Scopes.local?_define, Scopes.local?_define, if_neg fun same => apart same.2.1,
          if_neg fun same => apart same.2.1]
        exact worlds.extra hidden

end Worlds

end Twinning

end CooperativeLisp

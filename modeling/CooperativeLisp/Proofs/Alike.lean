import Mathlib.Data.List.Forall2
import CooperativeLisp.Engine.Task
import CooperativeLisp.Library.Catalogue

/-!
Values, streams and machines of two runs that are alike: equal but for the environments and the
identities of closures, which only have to stand for each other. Whatever a program can see of a
value it sees of every value that is alike, except what is bound in the scope of a closure. Main
statements: likeness survives when more environments come to stand for each other, and values that
are alike have the same kind, the same text and the same nil.
-/

namespace CooperativeLisp

open List (Forall₂)

theorem isEmpty_eq_of_forall₂ {α β : Type} {R : α → β → Prop} {as : List α} {bs : List β}
    (all : Forall₂ R as bs) : as.isEmpty = bs.isEmpty := by
  cases all <;> rfl

/-- The callables of the library that leave every scope alone. -/
def Callable.IsCore : Callable → Prop
  | .native (.primitive _) => True
  | .form (.exports _) | .form (.host _) => False
  | .form _ => True
  | .expander (.host _) => False
  | .expander _ => True
  | .native (.host _) | .closure _ => False

/-- In what values may differ and still be alike: which environments and which identities of
closures stand for each other. Callables of a host and declarations occur only if admitted. -/
structure Likeness where
  environment : Environment → Environment → Prop
  identity : Nat → Nat → Prop
  admits : Callable → Prop

namespace Likeness

/-- The callables that may occur, closures apart. -/
def Knows (ρ : Likeness) (c : Callable) : Prop :=
  c.IsCore ∨ ρ.admits c

/-- All that stands for each other in the one likeness does so in the other. -/
structure Le (ρ ρ' : Likeness) : Prop where
  environment : ∀ {env env'}, ρ.environment env env' → ρ'.environment env env'
  identity : ∀ {i j}, ρ.identity i j → ρ'.identity i j
  admits : ∀ {c}, ρ.admits c → ρ'.admits c

theorem Le.knows {ρ ρ' : Likeness} (le : ρ.Le ρ') {c : Callable} (known : ρ.Knows c) :
    ρ'.Knows c :=
  known.imp_right le.admits

theorem Le.trans {ρ ρ' ρ'' : Likeness} (le : ρ.Le ρ') (le' : ρ'.Le ρ'') : ρ.Le ρ'' :=
  ⟨fun same => le'.environment (le.environment same), fun same => le'.identity (le.identity same),
    fun admitted => le'.admits (le.admits admitted)⟩

end Likeness

/-! ### Values -/

/-- Values that are equal but for the environments and identities of closures. -/
inductive Value.Alike (ρ : Likeness) : Value → Value → Prop
  | number (x : Float) : Alike ρ (.number x) (.number x)
  | symbol (name : String) : Alike ρ (.symbol name) (.symbol name)
  | nil : Alike ρ .nil .nil
  | truth : Alike ρ .truth .truth
  | list {vs ws : List Value} : Forall₂ (Value.Alike ρ) vs ws → Alike ρ (.list vs) (.list ws)
  | native {n : Native} : ρ.Knows (.native n) →
      Alike ρ (.callable (.native n)) (.callable (.native n))
  | form {f : Form} : ρ.Knows (.form f) → Alike ρ (.form f) (.form f)
  | expander {x : Expander} : ρ.Knows (.expander x) → Alike ρ (.expander x) (.expander x)
  | closure {i j : Nat} {params : List String} {rest : Rest} {body body' : Value}
      {env env' : Environment} : ρ.identity i j → Value.Alike ρ body body' →
      ρ.environment env env' →
      Alike ρ (.callable (.closure ⟨i, params, rest, body, env⟩))
        (.callable (.closure ⟨j, params, rest, body', env'⟩))

/-- Callables that are alike as values. -/
def Callable.Alike (ρ : Likeness) (c d : Callable) : Prop :=
  Value.Alike ρ (.callable c) (.callable d)

variable {ρ ρ' : Likeness} {v w : Value} {vs ws : List Value}

mutual

theorem Value.Alike.mono (le : ρ.Le ρ') {v w : Value} (alike : v.Alike ρ w) : v.Alike ρ' w := by
  match alike with
  | .number x => exact .number x
  | .symbol name => exact .symbol name
  | .nil => exact .nil
  | .truth => exact .truth
  | .list all => exact .list (monoAll le all)
  | .native known => exact .native (le.knows known)
  | .form known => exact .form (le.knows known)
  | .expander known => exact .expander (le.knows known)
  | .closure same body around =>
    exact .closure (le.identity same) (body.mono le) (le.environment around)

theorem Value.Alike.monoAll (le : ρ.Le ρ') {vs ws : List Value}
    (all : Forall₂ (Value.Alike ρ) vs ws) : Forall₂ (Value.Alike ρ') vs ws := by
  match all with
  | .nil => exact .nil
  | .cons first rest => exact .cons (first.mono le) (monoAll le rest)

end

/-- A likeness in which environments and closures stand for nothing but themselves. -/
structure Likeness.Exact (ρ : Likeness) : Prop where
  environment : ∀ {env env'}, ρ.environment env env' → env = env'
  identity : ∀ {i j}, ρ.identity i j → i = j

mutual

/-- In an exact likeness nothing is alike but what is equal. -/
theorem Likeness.Exact.eq (exact : ρ.Exact) {v w : Value} (alike : v.Alike ρ w) : v = w := by
  match alike with
  | .number x => rfl
  | .symbol name => rfl
  | .nil => rfl
  | .truth => rfl
  | .list all => rw [exact.eqAll all]
  | .native _ => rfl
  | .form _ => rfl
  | .expander _ => rfl
  | .closure same body around =>
    cases exact.identity same
    cases exact.environment around
    rw [exact.eq body]

theorem Likeness.Exact.eqAll (exact : ρ.Exact) {vs ws : List Value}
    (all : Forall₂ (Value.Alike ρ) vs ws) : vs = ws := by
  match all with
  | .nil => rfl
  | .cons first rest => rw [exact.eq first, exact.eqAll rest]

end

theorem Value.Alike.monoOption (le : ρ.Le ρ') {x y : Option Value}
    (related : Option.Rel (Value.Alike ρ) x y) : Option.Rel (Value.Alike ρ') x y := by
  cases related with
  | none => exact .none
  | some alike => exact .some (alike.mono le)

namespace Value.Alike

theorem kind (alike : v.Alike ρ w) : v.kind = w.kind := by
  cases alike <;> rfl

theorem isNil (alike : v.Alike ρ w) : v.isNil = w.isNil := by
  cases alike with
  | list all => exact isEmpty_eq_of_forall₂ all
  | _ => rfl

theorem isTrue (alike : v.Alike ρ w) : v.isTrue = w.isTrue := by
  rw [Value.isTrue, Value.isTrue, alike.isNil]

theorem number? (alike : v.Alike ρ w) : v.number? = w.number? := by
  cases alike <;> rfl

theorem callable? (alike : v.Alike ρ w) :
    Option.Rel (Callable.Alike ρ) v.callable? w.callable? := by
  cases alike with
  | native known => exact .some (.native known)
  | form known => exact .some (.form known)
  | expander known => exact .some (.expander known)
  | closure same body around => exact .some (.closure same body around)
  | _ => exact .none

theorem toList? (alike : v.Alike ρ w) :
    Option.Rel (Forall₂ (Value.Alike ρ)) v.toList? w.toList? := by
  cases alike with
  | nil => exact .some .nil
  | list all => exact .some all
  | _ => exact .none

mutual

theorem appendTo {v w : Value} (alike : v.Alike ρ w) (shown : String) :
    v.appendTo shown = w.appendTo shown := by
  match alike with
  | .number x => rfl
  | .symbol name => rfl
  | .nil => rfl
  | .truth => rfl
  | .list .nil => rfl
  | .list (.cons first rest) =>
    simp only [Value.appendTo, first.appendTo, appendAll rest]
  | .native _ => rfl
  | .form _ => rfl
  | .expander _ => rfl
  | .closure _ _ _ => rfl

theorem appendAll {vs ws : List Value} (all : Forall₂ (Value.Alike ρ) vs ws) (shown : String) :
    Value.appendAll shown vs = Value.appendAll shown ws := by
  match all with
  | .nil => rfl
  | .cons first rest => simp only [Value.appendAll, first.appendTo, appendAll rest]

end

theorem display (alike : v.Alike ρ w) : v.display = w.display :=
  alike.appendTo ""

theorem displayAll (all : Forall₂ (Value.Alike ρ) vs ws) :
    Value.displayAll vs = Value.displayAll ws := by
  have shown : vs.map Value.display = ws.map Value.display := by
    induction all with
    | nil => rfl
    | cons first _ ih => rw [List.map_cons, List.map_cons, first.display, ih]
  rw [Value.displayAll, Value.displayAll, shown]

theorem headD (all : Forall₂ (Value.Alike ρ) vs ws) : (vs.headD .nil).Alike ρ (ws.headD .nil) := by
  cases all with
  | nil => exact .nil
  | cons first _ => exact first

end Value.Alike

theorem Callable.Alike.mono (le : ρ.Le ρ') {c d : Callable} (alike : c.Alike ρ d) :
    c.Alike ρ' d :=
  Value.Alike.mono le alike

/-! ### Failures -/

/-- Causes of the same kind with the same message. -/
structure Fault.Alike (f g : Fault) : Prop where
  kind : f.kind = g.kind
  message : f.message = g.message

theorem Fault.Alike.refl (f : Fault) : f.Alike f := ⟨rfl, rfl⟩

/-- Failures with causes that are alike and with backtraces that are alike. -/
structure Error.Alike (ρ : Likeness) (e e' : Error) : Prop where
  fault : e.fault.Alike e'.fault
  backtrace : Forall₂ (Value.Alike ρ) e.backtrace e'.backtrace

namespace Error.Alike

variable {e e' : Error}

theorem mono (le : ρ.Le ρ') (alike : e.Alike ρ e') : e.Alike ρ' e' :=
  ⟨alike.fault, Value.Alike.monoAll le alike.backtrace⟩

theorem ofFault {f g : Fault} (alike : f.Alike g) :
    (Error.ofFault f).Alike ρ (Error.ofFault g) :=
  ⟨alike, .nil⟩

theorem withOrigin (alike : e.Alike ρ e') (origin : v.Alike ρ w) :
    (e.withOrigin v).Alike ρ (e'.withOrigin w) :=
  ⟨alike.fault, List.rel_append alike.backtrace (.cons origin .nil)⟩

theorem withTrace (alike : e.Alike ρ e') (trace : Forall₂ (Value.Alike ρ) vs ws) (cap : Nat) :
    (e.withTrace vs cap).Alike ρ (e'.withTrace ws cap) :=
  ⟨alike.fault, List.forall₂_take cap (List.rel_append alike.backtrace trace)⟩

end Error.Alike

/-- Two ends that are both a result, or both a failure, and alike. -/
inductive Matched {α β : Type} (ρ : Likeness) (R : α → β → Prop) :
    Except Error α → Except Error β → Prop
  | ok {a : α} {b : β} : R a b → Matched ρ R (.ok a) (.ok b)
  | error {e e' : Error} : e.Alike ρ e' → Matched ρ R (.error e) (.error e')

namespace Matched

variable {α β α' β' : Type} {R R' : α → β → Prop} {S : α' → β' → Prop}
variable {x : Except Error α} {y : Except Error β}

/-- What holds of two values that are related and of two failures that are alike. -/
@[elab_as_elim]
theorem elim {motive : Except Error α → Except Error β → Prop} (matched : Matched ρ R x y)
    (ok : ∀ {a b}, R a b → motive (.ok a) (.ok b))
    (error : ∀ {e e'}, e.Alike ρ e' → motive (.error e) (.error e')) : motive x y := by
  cases matched with
  | ok related => exact ok related
  | error alike => exact error alike

theorem mono (le : ρ.Le ρ') (weaker : ∀ {a b}, R a b → R' a b) (matched : Matched ρ R x y) :
    Matched ρ' R' x y := by
  cases matched with
  | ok related => exact .ok (weaker related)
  | error alike => exact .error (alike.mono le)

theorem fault {f g : Fault} (alike : f.Alike g) :
    Matched ρ R (.error (.ofFault f)) (.error (.ofFault g)) :=
  .error (.ofFault alike)

theorem same (f : Fault) : Matched ρ R (.error (.ofFault f)) (.error (.ofFault f)) :=
  .fault (.refl f)

theorem bind {f : α → Except Error α'} {g : β → Except Error β'} (first : Matched ρ R x y)
    (rest : ∀ {a b}, R a b → Matched ρ S (f a) (g b)) : Matched ρ S (x >>= f) (y >>= g) := by
  cases first with
  | ok related => exact rest related
  | error alike => exact .error alike

end Matched

/-! ### Streams and runs -/

/-- Operations on operands that are alike. -/
inductive Operation.Alike (ρ : Likeness) : Operation → Operation → Prop
  | callable {c d : Callable} : c.Alike ρ d → Alike ρ (.callable c) (.callable d)
  | branch {env env' : Environment} {t t' e e' : Value} : ρ.environment env env' →
      t.Alike ρ t' → e.Alike ρ e' → Alike ρ (.branch env t e) (.branch env' t' e')
  | sequel {env env' : Environment} {next next' : Value} : ρ.environment env env' →
      next.Alike ρ next' → Alike ρ (.sequel env next) (.sequel env' next')

inductive Frame.Alike (ρ : Likeness) : Frame → Frame → Prop
  | value {v w : Value} : v.Alike ρ w → Alike ρ (.value v) (.value w)
  | call {operation operation' : Operation} {argc : Nat} {origin origin' : Value} :
      operation.Alike ρ operation' → origin.Alike ρ origin' →
      Alike ρ (.call operation argc origin) (.call operation' argc origin')
  | error {e e' : Error} : e.Alike ρ e' → Alike ρ (.error e) (.error e')

/-- Streams of frames that are alike, one by one. -/
structure Stream.Alike (ρ : Likeness) (s s' : Stream) : Prop where
  frames : Forall₂ (Frame.Alike ρ) s.frames s'.frames
  failed : s.failed = s'.failed

inductive Outcome.Alike (ρ : Likeness) : Outcome → Outcome → Prop
  | value {v w : Value} : v.Alike ρ w → Alike ρ (.value v) (.value w)
  | stream {s s' : Stream} : s.Alike ρ s' → Alike ρ (.stream s) (.stream s')

inductive Answer.Alike (ρ : Likeness) : Answer → Answer → Prop
  | value {v w : Value} : v.Alike ρ w → Alike ρ (.value v) (.value w)
  | stream {s s' : Stream} : s.Alike ρ s' → Alike ρ (.stream s) (.stream s')
  | compile {env env' : Environment} {v w : Value} : ρ.environment env env' →
      v.Alike ρ w → Alike ρ (.compile env v) (.compile env' w)

inductive Reply.Alike (ρ : Likeness) : Reply → Reply → Prop
  | answer {a a' : Answer} : a.Alike ρ a' → Alike ρ (.answer a) (.answer a')
  | invoke {c d : Callable} {vs ws : List Value} : c.Alike ρ d →
      Forall₂ (Value.Alike ρ) vs ws → Alike ρ (.invoke c vs) (.invoke d ws)

inductive Piece.Alike (ρ : Likeness) : Piece → Piece → Prop
  | value {v w : Value} : v.Alike ρ w → Alike ρ (.value v) (.value w)
  | splice {s s' : Stream} : s.Alike ρ s' → Alike ρ (.splice s) (.splice s')
  | instead {v w : Value} : v.Alike ρ w → Alike ρ (.instead v) (.instead w)
  | application {c d : Callable} {vs ws : List Value} : c.Alike ρ d →
      Forall₂ (Value.Alike ρ) vs ws → Alike ρ (.application c vs) (.application d ws)

/-- Machines between two frames that are alike in all they hold. -/
structure Machine.Alike (ρ : Likeness) (m m' : Machine) : Prop where
  frames : Forall₂ (Frame.Alike ρ) m.frames m'.frames
  stack : Forall₂ (Value.Alike ρ) m.stack m'.stack
  trace : Forall₂ (Value.Alike ρ) m.trace m'.trace
  cap : m.cap = m'.cap

inductive Advance.Alike (ρ : Likeness) : Advance → Advance → Prop
  | pending {m m' : Machine} : m.Alike ρ m' → Alike ρ (.pending m) (.pending m')
  | done {r r' : Except Error Value} : Matched ρ (Value.Alike ρ) r r' →
      Alike ρ (.done r) (.done r')

section Mono

theorem Operation.Alike.mono (le : ρ.Le ρ') {o o' : Operation} (alike : o.Alike ρ o') :
    o.Alike ρ' o' := by
  cases alike with
  | callable same => exact .callable (same.mono le)
  | branch around t e => exact .branch (le.environment around) (t.mono le) (e.mono le)
  | sequel around next => exact .sequel (le.environment around) (next.mono le)

theorem Frame.Alike.mono (le : ρ.Le ρ') {f f' : Frame} (alike : f.Alike ρ f') :
    f.Alike ρ' f' := by
  cases alike with
  | value same => exact .value (same.mono le)
  | call operation origin => exact .call (operation.mono le) (origin.mono le)
  | error same => exact .error (same.mono le)

theorem Stream.Alike.mono (le : ρ.Le ρ') {s s' : Stream} (alike : s.Alike ρ s') :
    s.Alike ρ' s' :=
  ⟨alike.frames.imp fun _ _ => Frame.Alike.mono le, alike.failed⟩

theorem Machine.Alike.mono (le : ρ.Le ρ') {m m' : Machine} (alike : m.Alike ρ m') :
    m.Alike ρ' m' :=
  ⟨alike.frames.imp fun _ _ => Frame.Alike.mono le, Value.Alike.monoAll le alike.stack,
    Value.Alike.monoAll le alike.trace, alike.cap⟩

end Mono

namespace Stream.Alike

variable {s s' t t' : Stream}

theorem empty : Stream.empty.Alike ρ Stream.empty := ⟨.nil, rfl⟩

theorem pushValue (alike : s.Alike ρ s') (same : v.Alike ρ w) :
    (s.pushValue v).Alike ρ (s'.pushValue w) :=
  ⟨.cons (.value same) alike.frames, alike.failed⟩

theorem pushCall {o o' : Operation} (alike : s.Alike ρ s') (operation : o.Alike ρ o') (argc : Nat)
    (origin : v.Alike ρ w) : (s.pushCall o argc v).Alike ρ (s'.pushCall o' argc w) :=
  ⟨.cons (.call operation origin) alike.frames, alike.failed⟩

theorem pushError {e e' : Error} (alike : s.Alike ρ s') (same : e.Alike ρ e') :
    (s.pushError e).Alike ρ (s'.pushError e') :=
  ⟨.cons (.error same) alike.frames, rfl⟩

theorem merge (alike : s.Alike ρ s') (other : t.Alike ρ t') :
    (s.merge t).Alike ρ (s'.merge t') :=
  ⟨List.rel_append other.frames alike.frames, by
    rw [Stream.merge, Stream.merge, alike.failed, other.failed]⟩

end Stream.Alike

namespace Machine.Alike

variable {m m' : Machine}

theorem start {s s' : Stream} (alike : s.Alike ρ s') (cap : BacktraceCap) :
    (Machine.start s cap).Alike ρ (Machine.start s' cap) :=
  ⟨alike.frames, .nil, .nil, rfl⟩

theorem finish (alike : m.Alike ρ m') : Matched ρ (Value.Alike ρ) m.finish m'.finish := by
  obtain ⟨frames, stack, trace, cap⟩ := m
  obtain ⟨frames', stack', trace', cap'⟩ := m'
  have same := alike.stack
  cases same with
  | nil => exact .same _
  | cons first rest =>
    cases rest with
    | nil => exact .ok first
    | cons second rest =>
      simp only [Machine.finish, List.length_cons, rest.length_eq]
      exact .same _

theorem fail (alike : m.Alike ρ m') {e e' : Error} (same : e.Alike ρ e') :
    (m.fail e).Alike ρ (m'.fail e') := by
  unfold Machine.fail
  rw [alike.cap]
  exact .done (.error (same.withTrace alike.trace _))

theorem settle (alike : m.Alike ρ m') : m.settle.Alike ρ m'.settle := by
  unfold Machine.settle
  rw [isEmpty_eq_of_forall₂ alike.frames]
  split
  · exact .done alike.finish
  · exact .pending alike

theorem enter (alike : m.Alike ρ m') {frames frames' : List Frame}
    (same : Forall₂ (Frame.Alike ρ) frames frames') (argc : Nat) (origin : v.Alike ρ w) :
    (m.enter frames argc v).Alike ρ (m'.enter frames' argc w) := by
  refine ⟨same, List.forall₂_drop argc alike.stack, ?_, alike.cap⟩
  unfold Machine.enter
  rw [alike.cap]
  exact List.forall₂_take _ (.cons origin alike.trace)

theorem answered (alike : m.Alike ρ m') {r r' : Except Error Outcome}
    (same : Matched ρ (Outcome.Alike ρ) r r') : (m.answered r).Alike ρ (m'.answered r') := by
  cases same with
  | error e => exact alike.fail e
  | ok outcome =>
    refine settle ?_
    cases outcome with
    | value v => exact ⟨alike.frames, .cons v alike.stack, alike.trace, alike.cap⟩
    | stream s =>
      exact ⟨List.rel_append s.frames alike.frames, alike.stack, alike.trace, alike.cap⟩

end Machine.Alike

end CooperativeLisp

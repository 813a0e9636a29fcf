import CooperativeLisp.Proofs.AlikeLibrary
import CooperativeLisp.Proofs.Realized
import CooperativeLisp.Proofs.Regular
import CooperativeLisp.Proofs.Tasks
import CooperativeLisp.Proofs.WriteOnce

/-!
Compilations that fail. Main statement: over a host whose forms build no streams by hand, a stream
has failed if and only if its first frame is an error frame, which is then its only one, and running
it ends there and invokes nothing. The failure is that of the first expression that could not be
processed, where the operands of an application are met from the last to the first, and the
expressions around that one leave no trace in it.
-/

namespace CooperativeLisp

variable {σ : Type}

/-- The failure of an error frame. -/
def Frame.error? : Frame → Option Error
  | .error e => some e
  | _ => none

/-- The failures that stand in a stream. -/
def Stream.errors (s : Stream) : List Error :=
  s.frames.filterMap Frame.error?

/-- None of the frames is an error frame. -/
def Frame.Unfailing (frames : List Frame) : Prop :=
  frames.filterMap error? = []

theorem Frame.Unfailing.append {xs ys : List Frame} (front : Unfailing xs) (back : Unfailing ys) :
    Unfailing (xs ++ ys) := by
  rw [Unfailing, List.filterMap_append, front, back, List.append_nil]

theorem Stream.append_pushCall (s : Stream) (frames : List Frame) (operation : Operation)
    (argc : Nat) (origin : Value) : frames ++ (s.pushCall operation argc origin).frames =
      (frames ++ [.call operation argc origin]) ++ s.frames := by
  rw [List.append_assoc]
  rfl

namespace Host

variable {host : Host σ} {env env' : Environment} {e e' : Value} {w w' w₁ w₂ : World σ}

/-- No form of the host answers with a stream built by hand: it answers with a value, with a failure
or with what an expression is compiled to. -/
structure FormsCompile (host : Host σ) : Prop where
  form : ∀ {name operands env w s w'},
    (host.form name operands env).run.run w ≠ (.ok (.stream s), w')

/-! ### Where a compilation fails -/

/-- Expressions that are compiled one after the other, none of which fails. -/
inductive Succeeds (host : Host σ) (env : Environment) : List Value → World σ → World σ → Prop
  | nil {w : World σ} : Succeeds host env [] w w
  | cons {e : Value} {es : List Value} {s : Stream} {w w₁ w' : World σ} :
      host.Answers (·.compile env e) w s w₁ → s.failed = false → Succeeds host env es w₁ w' →
      Succeeds host env (e :: es) w w'

/-- The form of an application has an expression compiled at once: the condition of a choice, the
first expression of a sequence, or the one that a form of the host answers with. -/
inductive Awaits (host : Host σ) (env : Environment) :
    Value → World σ → Environment → Value → World σ → Prop
  | condition {operator c t : Value} {others : List Value} {w : World σ} :
      w.scopes.operator env operator = .ok (.form .conditional) → others.length ≤ 1 →
      Awaits host env (Library.apply operator (c :: t :: others)) w env c w
  | first {operator e : Value} {es : List Value} {w : World σ} :
      w.scopes.operator env operator = .ok (.form .sequence) →
      Awaits host env (Library.apply operator (e :: es)) w env e w
  | answer {operator e : Value} {operands : List Value} {name : String} {env' : Environment}
      {w w₁ : World σ} : w.scopes.operator env operator = .ok (.form (.host name)) →
      (host.form name operands env).run.run w = (.ok (.compile env' e), w₁) →
      Awaits host env (Library.apply operator operands) w env' e w₁

/-- Compiling an expression gets to one inside it: to its replacement, to the expression that its
form has compiled, or to an operand, once those behind that one are compiled without failure. -/
inductive Proceeds (host : Host σ) :
    Environment → Value → World σ → Environment → Value → World σ → Prop
  | here {env : Environment} {e : Value} {w : World σ} : Proceeds host env e w env e w
  | replacement {env env' : Environment} {e e₁ e' : Value} {w w₁ w' : World σ} :
      host.Pieces env e w (.ok (.instead e₁)) w₁ → Proceeds host env e₁ w₁ env' e' w' →
      Proceeds host env e w env' e' w'
  | awaited {env env₁ env' : Environment} {e e₁ e' : Value} {w w₁ w' : World σ} :
      host.Awaits env e w env₁ e₁ w₁ → Proceeds host env₁ e₁ w₁ env' e' w' →
      Proceeds host env e w env' e' w'
  | operand {env env' : Environment} {e e₁ e' : Value} {c : Callable} {front behind : List Value}
      {w w₁ w₂ w' : World σ} :
      host.Pieces env e w (.ok (.application c (front ++ e₁ :: behind))) w₁ →
      host.Succeeds env behind.reverse w₁ w₂ → Proceeds host env e₁ w₂ env' e' w' →
      Proceeds host env e w env' e' w'

/-- The processing of an application may hand on a failure from elsewhere, with a backtrace of its
own: a declaration evaluates expressions, and a form of the host may do so too. An expander of the host
counts with them only where its failure has a backtrace already, as one has that comes from an
evaluation of its own; any other failure of an expander is as it was raised. -/
inductive Relays (host : Host σ) (env : Environment) : Value → World σ → Prop
  | declaration {operator : Value} {operands : List Value} {cap : BacktraceCap} {w : World σ} :
      w.scopes.operator env operator = .ok (.form (.exports cap)) →
      Relays host env (Library.apply operator operands) w
  | form {operator : Value} {operands : List Value} {name : String} {w : World σ} :
      w.scopes.operator env operator = .ok (.form (.host name)) →
      Relays host env (Library.apply operator operands) w
  | expander {operator : Value} {operands : List Value} {name : String} {error : Error}
      {w w' : World σ} : w.scopes.operator env operator = .ok (.expander (.host name)) →
      (host.expander name operands env).run.run w = (.error error, w') → error.backtrace ≠ [] →
      Relays host env (Library.apply operator operands) w

/-- Compiling an expression fails: the processing of the expression that it gets to has failed, and
that expression comes last in the backtrace. It is the only entry unless the failure was handed
on from elsewhere. -/
def FailsFirst (host : Host σ) (env : Environment) (e : Value) (w : World σ) (error : Error)
    (w' : World σ) : Prop :=
  ∃ env' origin w₁ raised, host.Proceeds env e w env' origin w₁ ∧
    host.Pieces env' origin w₁ (.error raised) w' ∧ error = raised.withOrigin origin ∧
    (¬ host.Relays env' origin w₁ → error.backtrace = [origin])

theorem Proceeds.trans {env₁ : Environment} {e₁ : Value}
    (first : host.Proceeds env e w env₁ e₁ w₁) (second : host.Proceeds env₁ e₁ w₁ env' e' w') :
    host.Proceeds env e w env' e' w' := by
  induction first with
  | here => exact second
  | replacement pieces _ ih => exact .replacement pieces (ih second)
  | awaited awaits _ ih => exact .awaited awaits (ih second)
  | operand pieces behind _ ih => exact .operand pieces behind (ih second)

theorem FailsFirst.outside {error : Error} (fails : host.FailsFirst env' e' w₁ error w')
    (before : host.Proceeds env e w env' e' w₁) : host.FailsFirst env e w error w' := by
  obtain ⟨env₂, origin, w₂, raised, proceeds, failed⟩ := fails
  exact ⟨env₂, origin, w₂, raised, before.trans proceeds, failed⟩

theorem FailsFirst.of_pieces {raised : Error} (pieces : host.Pieces env e w (.error raised) w')
    (shows : raised.backtrace = [] ∨ host.Relays env e w) :
    host.FailsFirst env e w (raised.withOrigin e) w' := by
  refine ⟨env, e, w, raised, .here, pieces, rfl, fun own => ?_⟩
  rw [Error.withOrigin, shows.resolve_right own]
  rfl

theorem FailsFirst.of_operand {error : Error} {c : Callable} {operands done front : List Value}
    (fails : host.FailsFirst env e' w₂ error w')
    (pieces : host.Pieces env e w (.ok (.application c operands)) w₁)
    (split : operands.reverse = done ++ e' :: front) (succeeds : host.Succeeds env done w₁ w₂) :
    host.FailsFirst env e w error w' := by
  have operands_eq : operands = front.reverse ++ e' :: done.reverse := by
    rw [← List.reverse_reverse operands, split]
    simp
  rw [operands_eq] at pieces
  refine fails.outside (.operand pieces ?_ .here)
  rwa [List.reverse_reverse]

/-! ### What a piece shows -/

/-- What a piece shows of the expression it was compiled from: a failure has no backtrace yet
unless it was handed on, and the stream of a form is what it had compiled, in front of frames of
its own. -/
def Shows (host : Host σ) (nested : Environment → Value → Effect σ Stream) (env : Environment)
    (e : Value) (w : World σ) : Except Error Piece → World σ → Prop
  | .error raised, _ => raised.backtrace = [] ∨ host.Relays env e w
  | .ok (.splice more), w' => ∃ env' e' w₁ s waiting, host.Awaits env e w env' e' w₁ ∧
      nested env' e' w₁ = some (s, w') ∧ more = ⟨s.frames ++ waiting, s.failed⟩ ∧
      Frame.Unfailing waiting
  | .ok _, _ => True

variable {g : Engine σ} {nested : Environment → Value → Effect σ Stream}
variable {operator : Value} {operands : List Value}

theorem shows_compileBefore {f : Form} {waiting : Stream} {answer : Except Error Outcome}
    (awaits : host.Awaits env e w env e' w)
    (form : g.formAnswer nested f operands env =
      do return .stream (← Engine.compileBefore nested env e' waiting))
    (whole : waiting.failed = false) (clean : Frame.Unfailing waiting.frames)
    (run : (g.formAnswer nested f operands env).run w = some (answer, w')) :
    host.Shows nested env e w (answer.map Outcome.piece) w' := by
  rw [form, Engine.formAnswer_compileBefore] at run
  obtain ⟨s, compiled, rfl⟩ := Effect.map_eq_some.mp run
  refine ⟨env, e', w, s, waiting.frames, awaits, compiled, ?_, clean⟩
  rw [Stream.merge, whole, Bool.false_or]

theorem choice_clean (env : Environment) (consequent alternative : Value) (operands : List Value) :
    (Engine.choice env consequent alternative operands).failed = false ∧
      Frame.Unfailing (Engine.choice env consequent alternative operands).frames :=
  ⟨rfl, rfl⟩

theorem sequels_clean (env : Environment) (first : Value) (rest : List Value) :
    (Engine.sequels env first rest).failed = false ∧
      Frame.Unfailing (Engine.sequels env first rest).frames := by
  unfold Engine.sequels
  dsimp only
  rw [Stream.Renders.sequels_frames]
  refine ⟨rfl, ?_⟩
  simp [Frame.Unfailing, List.filterMap_map, Function.comp_def, Frame.error?]

theorem shows_formAnswer (same : g.host = host) (forms : host.FormsCompile) {f : Form}
    {answer : Except Error Outcome} (resolved : w.scopes.operator env operator = .ok (.form f))
    (admitted : f.arity.Admits operands.length)
    (run : (g.formAnswer nested f operands env).run w = some (answer, w')) :
    host.Shows nested env (Library.apply operator operands) w (answer.map Outcome.piece) w' := by
  cases f with
  | quote =>
    obtain ⟨rfl, rfl⟩ := Effect.pure_eq_some.mp run
    exact trivial
  | lambda =>
    cases operands with
    | nil => exact absurd admitted (Nat.not_succ_le_zero 0)
    | cons params body =>
      rw [Engine.formAnswer_lambda] at run
      cases made : w.makeClosure params (Engine.bodyOf body) env with
      | mk result w₁ =>
        rw [made] at run
        cases result with
        | error raised =>
          cases run
          exact Or.inl (World.makeClosure_raised made).backtrace
        | ok c =>
          cases run
          exact trivial
  | conditional =>
    match operands, admitted with
    | [c, t], _ =>
      obtain ⟨whole, clean⟩ := choice_clean env t .nil [c, t]
      exact shows_compileBefore (.condition resolved (Nat.zero_le 1)) rfl whole clean run
    | [c, t, e], _ =>
      obtain ⟨whole, clean⟩ := choice_clean env t e [c, t, e]
      exact shows_compileBefore (.condition resolved (Nat.le_refl 1)) rfl whole clean run
    | c :: t :: e :: e' :: es, _ =>
      obtain ⟨rfl, rfl⟩ := Effect.pure_eq_some.mp run
      exact Or.inl rfl
  | sequence =>
    cases operands with
    | nil =>
      obtain ⟨rfl, rfl⟩ := Effect.pure_eq_some.mp run
      exact trivial
    | cons first rest =>
      obtain ⟨whole, clean⟩ := sequels_clean env first rest
      exact shows_compileBefore (.first resolved) rfl whole clean run
  | exports cap =>
    obtain ⟨v, rfl⟩ := List.length_eq_one_iff.mp admitted
    cases read : Binding.readAll v with
    | error raised =>
      rw [Engine.formAnswer_noBindings read] at run
      cases run
      exact Or.inr (.declaration resolved)
    | ok bindings =>
      rw [Engine.formAnswer_exports read] at run
      obtain ⟨declared, -, rfl⟩ := Effect.map_eq_some.mp run
      cases declared with
      | error raised => exact Or.inr (.declaration resolved)
      | ok v => exact trivial
  | host name =>
    cases replied : (host.form name operands env).run.run w with
    | mk reply w₁ =>
      have answered := replied
      rw [← same] at answered
      obtain raised | v | s | ⟨env', e'⟩ := reply
      · rw [Engine.formAnswer_hostFails answered] at run
        cases run
        exact Or.inr (.form resolved)
      · rw [Engine.formAnswer_hostValue answered] at run
        cases run
        exact trivial
      · exact absurd replied forms.form
      · rw [Engine.formAnswer_hostCompile answered] at run
        obtain ⟨s, compiled, rfl⟩ := Effect.map_eq_some.mp run
        refine ⟨env', e', w₁, s, [], .answer resolved replied, compiled, ?_, rfl⟩
        rw [List.append_nil]

theorem expansion_raised {x : Expander} {raised : Error}
    (resolved : w.scopes.operator env operator = .ok (.expander x))
    (failed : host.expansion x operands env w = (.error raised, w')) :
    raised.backtrace = [] ∨ host.Relays env (Library.apply operator operands) w := by
  unfold Host.expansion at failed
  split at failed
  · rename_i refused
    cases failed
    exact Or.inl (Arity.validate_raised refused).backtrace
  split at failed
  · rename_i expanded
    cases failed
    exact Or.inl (Expander.expand?_raised expanded).backtrace
  · rename_i foreign
    obtain ⟨name, rfl⟩ := Expander.expand?_eq_none foreign
    by_cases raw : raised.backtrace = []
    · exact Or.inl raw
    · exact Or.inr (.expander resolved failed raw)

theorem shows_compileApplication (same : g.host = host) (forms : host.FormsCompile) {c : Callable}
    {piece : Except Error Piece} (resolved : w.scopes.operator env operator = .ok c)
    (run : (g.compileApplication nested env operands c).run w = some (piece, w')) :
    host.Shows nested env (Library.apply operator operands) w piece w' := by
  cases c with
  | expander x =>
    rw [Engine.compileApplication_expander, same] at run
    cases expansion : host.expansion x operands env w with
    | mk result w₁ =>
      rw [expansion] at run
      cases result with
      | error raised =>
        cases run
        exact expansion_raised resolved expansion
      | ok e =>
        cases run
        exact trivial
  | form f =>
    rw [Engine.compileApplication_form] at run
    obtain ⟨answer, applied, rfl⟩ := Effect.map_eq_some.mp run
    by_cases admitted : f.arity.Admits operands.length
    · rw [Engine.applyForm_admitted admitted] at applied
      exact shows_formAnswer same forms resolved admitted applied
    · rw [Engine.applyForm_refused admitted] at applied
      cases applied
      exact Or.inl rfl
  | native n =>
    cases (Engine.compileApplication_function (c := .native n) trivial).symm.trans run
    exact trivial
  | closure f =>
    cases (Engine.compileApplication_function (c := .closure f) trivial).symm.trans run
    exact trivial

theorem shows_compileOne (same : g.host = host) (forms : host.FormsCompile)
    {piece : Except Error Piece} (run : (g.compileOne nested env e).run w = some (piece, w')) :
    host.Shows nested env e w piece w' := by
  by_cases atom : e.IsAtom
  · cases (Engine.compileOne_atom atom).symm.trans run
    exact trivial
  match e with
  | .symbol name =>
    by_cases isNil : name = Symbol.nilName
    · subst isNil
      obtain ⟨rfl, rfl⟩ := Effect.pure_eq_some.mp run
      exact trivial
    by_cases isTruth : name = Symbol.truthName
    · subst isTruth
      obtain ⟨rfl, rfl⟩ := Effect.pure_eq_some.mp run
      exact trivial
    rw [Engine.compileOne_symbol isNil isTruth] at run
    unfold Scopes.lookup at run
    cases bound : w.scopes.get? env name with
    | none =>
      rw [bound] at run
      cases run
      exact Or.inl rfl
    | some v =>
      rw [bound] at run
      cases run
      exact trivial
  | .list [] =>
    obtain ⟨rfl, rfl⟩ := Effect.pure_eq_some.mp run
    exact trivial
  | .list (operator :: operands) =>
    by_cases computed : operator.IsComputed
    · cases (Engine.compileOne_computed computed).symm.trans run
      exact trivial
    cases resolved : w.scopes.operator env operator with
    | error f =>
      cases (Engine.compileOne_noOperator computed resolved).symm.trans run
      exact Or.inl rfl
    | ok c =>
      exact shows_compileApplication same forms resolved
        ((Engine.compileOne_operator resolved).symm.trans run)
  | .number _ | .nil | .truth | .callable _ => exact absurd trivial atom

/-! ### Work lists -/

/-- The frames that stand for an expression wherever it is compiled: there are some, and none of
them is an error frame. -/
structure Fits (host : Host σ) (env : Environment) (e : Value) (w : World σ) (frames : List Frame)
    (w' : World σ) : Prop where
  places : host.Places env [e] w (.ok frames) w'
  some : frames ≠ []
  clean : Frame.Unfailing frames

/-- The frames that expressions are compiled to one after the other. -/
inductive Built (host : Host σ) (env : Environment) :
    List Value → World σ → List Frame → World σ → Prop
  | nil {w : World σ} : Built host env [] w [] w
  | cons {e : Value} {es : List Value} {first more : List Frame} {w w₁ w' : World σ} :
      host.Fits env e w first w₁ → Built host env es w₁ more w' →
      Built host env (e :: es) w (more ++ first) w'

namespace Built

variable {es xs ys : List Value} {frames : List Frame}

theorem of_append (built : host.Built env (xs ++ ys) w frames w') :
    ∃ first more w₁, host.Built env xs w first w₁ ∧ host.Built env ys w₁ more w' ∧
      frames = more ++ first := by
  induction xs generalizing w frames with
  | nil => exact ⟨[], frames, w, .nil, built, (List.append_nil _).symm⟩
  | cons e xs ih =>
    cases built with
    | @cons _ _ first _ _ _ _ fits rest =>
      obtain ⟨others, more, w₂, before, behind, rfl⟩ := ih rest
      exact ⟨others ++ first, more, w₂, .cons fits before, behind, List.append_assoc ..⟩

theorem places (built : host.Built env es w frames w') :
    host.Places env es w (.ok frames) w' := by
  induction built with
  | nil => exact .nil
  | cons fits _ ih => exact fits.places.append ih

theorem clean (built : host.Built env es w frames w') : Frame.Unfailing frames := by
  induction built with
  | nil => rfl
  | cons fits _ ih => exact ih.append fits.clean

theorem succeeds (built : host.Built env es w frames w') : host.Succeeds env es w w' := by
  induction built with
  | nil => exact .nil
  | cons fits _ ih =>
    exact .cons (fits.places [] .empty _ _ (compiles_nil.mpr ⟨rfl, rfl⟩)) rfl ih

end Built

namespace Fits

theorem of_value {v : Value} (pieces : host.Pieces env e w (.ok (.value v)) w') :
    host.Fits env e w [.value v] w' :=
  ⟨.of_value pieces, List.cons_ne_nil _ _, rfl⟩

theorem of_splice {frames : List Frame} (some : frames ≠ []) (clean : Frame.Unfailing frames)
    (pieces : host.Pieces env e w (.ok (.splice ⟨frames, false⟩)) w') :
    host.Fits env e w frames w' := by
  refine ⟨fun pending s s' w₁ compiles => compiles_cons.mpr ⟨_, _, pieces, ?_⟩, some, clean⟩
  simp only [Engine.placed, Stream.merge, Bool.or_false, Bool.false_eq_true, if_false]
  exact compiles

theorem of_instead {frames : List Frame} (pieces : host.Pieces env e w (.ok (.instead e')) w₁)
    (fits : host.Fits env e' w₁ frames w') : host.Fits env e w frames w' where
  places := Places.of_instead (r := .ok frames) pieces fits.places
  some := fits.some
  clean := fits.clean

theorem of_application {c : Callable} {operands : List Value} {frames : List Frame}
    (pieces : host.Pieces env e w (.ok (.application c operands)) w₁)
    (built : host.Built env operands.reverse w₁ frames w') :
    host.Fits env e w (frames ++ [.call (.callable c) operands.length e]) w' where
  places := Places.of_application pieces built.places
  some := List.append_ne_nil_of_right_ne_nil _ (List.cons_ne_nil _ _)
  clean := built.clean.append rfl

end Fits

/-- How a work list is compiled in front of a stream: to frames for each of its expressions, or
until one of them fails, whose error frame then comes first. -/
inductive Verdict (host : Host σ) (env : Environment) (s : Stream) :
    List Value → World σ → Stream → World σ → Prop
  | whole {pending : List Value} {frames : List Frame} {w w' : World σ} :
      host.Built env pending w frames w' →
      Verdict host env s pending w ⟨frames ++ s.frames, s.failed⟩ w'
  | failed {done left : List Value} {e : Value} {frames rest : List Frame} {error : Error}
      {w w₁ w' : World σ} : host.Built env done w frames w₁ → host.FailsFirst env e w₁ error w' →
      Frame.Unfailing rest →
      Verdict host env s (done ++ e :: left) w ⟨.error error :: (rest ++ s.frames), true⟩ w'

namespace Verdict

variable {s s' : Stream} {pending : List Value} {first rest : List Frame} {error : Error}

/-- The first expression has failed. -/
theorem fails (failed : host.FailsFirst env e w error w') (clean : Frame.Unfailing rest) :
    host.Verdict env s (e :: pending) w ⟨.error error :: (rest ++ s.frames), true⟩ w' :=
  .failed .nil failed clean

/-- The first expression has been compiled, and then the others in front of its frames. -/
theorem push (fits : host.Fits env e w first w₁)
    (verdict : host.Verdict env ⟨first ++ s.frames, s.failed⟩ pending w₁ s' w') :
    host.Verdict env s (e :: pending) w s' w' := by
  cases verdict with
  | whole built =>
    rw [← List.append_assoc]
    exact .whole (.cons fits built)
  | failed built failed clean =>
    rw [← List.append_assoc]
    exact .failed (.cons fits built) failed (clean.append fits.clean)

theorem of_single (verdict : host.Verdict env .empty [e] w s w') :
    (s.failed = false ∧ host.Fits env e w s.frames w') ∨
      ∃ error rest, s = ⟨.error error :: rest, true⟩ ∧ host.FailsFirst env e w error w' ∧
        Frame.Unfailing rest := by
  generalize alone : [e] = pending at verdict
  cases verdict with
  | whole built =>
    subst alone
    cases built with
    | cons fits built =>
      cases built
      rw [List.nil_append, Stream.empty, List.append_nil]
      exact Or.inl ⟨rfl, fits⟩
  | @failed done left _ _ rest _ _ _ _ built failed clean =>
    obtain ⟨rfl, same⟩ | ⟨-, same⟩ := List.singleton_eq_append_iff.mp alone
    · cases same
      cases built
      exact Or.inr ⟨_, rest, by rw [Stream.empty, List.append_nil], failed, clean⟩
    · cases same

theorem of_instead (pieces : host.Pieces env e w (.ok (.instead e')) w₁)
    (verdict : host.Verdict env s (e' :: pending) w₁ s' w') :
    host.Verdict env s (e :: pending) w s' w' := by
  generalize list : e' :: pending = es at verdict
  cases verdict with
  | whole built =>
    subst list
    cases built with
    | cons fits built => exact .whole (.cons (fits.of_instead pieces) built)
  | failed built failed clean =>
    obtain ⟨rfl, same⟩ | ⟨done, rfl, rfl⟩ := List.cons_eq_append_iff.mp list
    · cases same
      cases built
      exact .fails (failed.outside (.replacement pieces .here)) clean
    · cases built with
      | cons fits built => exact .failed (.cons (fits.of_instead pieces) built) failed clean

theorem of_application {c : Callable} {operands : List Value}
    (pieces : host.Pieces env e w (.ok (.application c operands)) w₁)
    (verdict : host.Verdict env (s.pushCall (.callable c) operands.length e)
      (operands.reverse ++ pending) w₁ s' w') :
    host.Verdict env s (e :: pending) w s' w' := by
  generalize list : operands.reverse ++ pending = es at verdict
  cases verdict with
  | whole built =>
    subst list
    obtain ⟨first, more, w₂, before, behind, rfl⟩ := built.of_append
    rw [Stream.append_pushCall, List.append_assoc more]
    exact .whole (.cons (.of_application pieces before) behind)
  | failed built failed clean =>
    rw [Stream.append_pushCall]
    have call : Frame.Unfailing [.call (.callable c) operands.length e] := rfl
    have clean := clean.append call
    rcases List.append_eq_append_iff.mp list with ⟨others, rfl, behind⟩ | ⟨more, inside, behind⟩
    · obtain ⟨first, more, w₂, before, others, rfl⟩ := built.of_append
      rw [behind]
      exact .failed (.cons (.of_application pieces before) others) failed clean
    · cases more with
      | nil =>
        rw [List.append_nil] at inside
        rw [← List.nil_append pending, ← behind]
        rw [← inside] at built
        exact .failed (.cons (.of_application pieces built) .nil) failed clean
      | cons e'' more =>
        cases behind
        exact .fails (failed.of_operand pieces inside built.succeeds) clean

end Verdict

/-- However many rounds there are for the streams of forms, a piece that an engine compiles is the
piece. -/
theorem Pieces.of_rounds {rounds fuel : Nat} {piece : Except Error Piece}
    (run : ((Engine.withFuel host fuel).compileOne (fun env e =>
      (Engine.withFuel host fuel).compileOnto rounds env [e] .empty) env e).run w =
        some (piece, w')) : host.Pieces env e w piece w' :=
  Answers.of_rounds
    (f := fun n g => (g.compileOne (fun env e => g.compileOnto n env [e] .empty) env e).run)
    (fun less below => below.compileOne (fun env e => below.compileOnto less env [e] .empty) env e)
    run

/-- What an engine of the host compiles a work list to. The induction is on the rounds that are
left, which the streams of forms are compiled with as well. -/
theorem verdict_of_run (forms : host.FormsCompile) {fuel rounds : Nat} {pending : List Value}
    {s s' : Stream}
    (run : (Engine.withFuel host fuel).compileOnto rounds env pending s w = some (s', w')) :
    host.Verdict env s pending w s' w' := by
  induction rounds generalizing env pending s w s' w' with
  | zero => exact absurd run Effect.exhausted_ne_some
  | succ rounds ih =>
    cases pending with
    | nil =>
      obtain ⟨rfl, rfl⟩ := Effect.pure_eq_some.mp run
      exact .whole .nil
    | cons e pending =>
      rw [Engine.compileOnto_succ] at run
      obtain ⟨piece, w₁, first, run⟩ := Effect.bind_eq_some.mp run
      have pieces : host.Pieces env e w piece w₁ := .of_rounds first
      have shows := shows_compileOne (Engine.withFuel_host host fuel) forms first
      obtain raised | v | more | e' | ⟨c, operands⟩ := piece
      · obtain ⟨rfl, rfl⟩ := Effect.pure_eq_some.mp run
        exact .fails (.of_pieces pieces shows) List.filterMap_nil
      · exact .push (.of_value pieces) (ih run)
      · obtain ⟨env₁, e₁, w₂, s₁, waiting, awaits, nested, rfl, clean⟩ := shows
        rcases (ih nested).of_single with ⟨whole, fits⟩ | ⟨error, rest, rfl, failed, cleanRest⟩
        · simp only [Engine.placed, whole, Bool.false_eq_true, if_false, Stream.merge,
            Bool.or_false] at run
          rw [whole] at pieces
          refine .push (.of_splice ?_ (fits.clean.append clean) pieces) (ih run)
          exact List.append_ne_nil_of_left_ne_nil fits.some _
        · obtain ⟨rfl, rfl⟩ := Effect.pure_eq_some.mp run
          rw [Stream.merge, Bool.or_true, List.cons_append]
          exact .fails (failed.outside (.awaited awaits .here)) (cleanRest.append clean)
      · exact .of_instead pieces (ih run)
      · exact .of_application pieces (ih run)

/-- An expression that is compiled without a failure is compiled to the same frames wherever it
stands. -/
theorem Fits.of_compile (forms : host.FormsCompile) {s : Stream}
    (compiled : host.Answers (·.compile env e) w s w') (whole : s.failed = false) :
    host.Fits env e w s.frames w' := by
  obtain ⟨fuel, run⟩ := compiled
  rcases (verdict_of_run forms run).of_single with ⟨-, fits⟩ | ⟨error, rest, rfl, -, -⟩
  · exact fits
  · cases whole

theorem Succeeds.built (forms : host.FormsCompile) {es : List Value}
    (succeeds : host.Succeeds env es w w') : ∃ frames, host.Built env es w frames w' := by
  induction succeeds with
  | nil => exact ⟨[], .nil⟩
  | cons compiled whole _ ih =>
    obtain ⟨frames, built⟩ := ih
    exact ⟨_, .cons (.of_compile forms compiled whole) built⟩

theorem pieces_compileBefore {f : Form} {s waiting : Stream}
    (resolved : w.scopes.operator env operator = .ok (.form f))
    (admitted : f.arity.Admits operands.length)
    (compiled : host.Answers (·.compile env e) w s w') (whole : waiting.failed = false)
    (form : ∀ g : Engine σ, g.formAnswer g.compile f operands env =
      do return .stream (← Engine.compileBefore g.compile env e waiting)) :
    host.Pieces env (Library.apply operator operands) w
      (.ok (.splice ⟨s.frames ++ waiting.frames, s.failed⟩)) w' := by
  have pieces := Pieces.of_form resolved admitted (answers_compileBefore compiled form)
  rwa [Except.map, Outcome.piece, Stream.merge, whole, Bool.false_or] at pieces

theorem Awaits.pieces {env₁ : Environment} {e₁ : Value} {s : Stream}
    (awaits : host.Awaits env e w env₁ e₁ w₁)
    (compiled : host.Answers (·.compile env₁ e₁) w₁ s w') :
    ∃ waiting, host.Pieces env e w (.ok (.splice ⟨s.frames ++ waiting, s.failed⟩)) w' := by
  cases awaits with
  | @condition _ _ t others _ resolved few =>
    match others, few with
    | [], _ => exact ⟨_, pieces_compileBefore resolved (Nat.le_refl 2) compiled rfl fun _ => rfl⟩
    | [_], _ => exact ⟨_, pieces_compileBefore resolved (Nat.le_succ 2) compiled rfl fun _ => rfl⟩
  | @first _ _ es _ resolved =>
    have whole := (sequels_clean env e₁ es).1
    exact ⟨_, pieces_compileBefore resolved trivial compiled whole fun _ => rfl⟩
  | @answer _ _ operands name _ _ _ resolved replied =>
    have answers : host.Answers (fun g => (g.formAnswer g.compile (.host name) operands env).run) w
        (.ok (.stream s)) w' := by
      refine compiled.imp fun g same run => ?_
      rw [← same] at replied
      rw [Engine.formAnswer_hostCompile replied]
      exact Effect.map_eq_some.mpr ⟨_, run, rfl⟩
    refine ⟨[], ?_⟩
    rw [List.append_nil]
    exact Pieces.of_form resolved trivial answers

/-- Wherever an expression stands, the failure of what its compilation gets to ends the compilation,
with an error frame that comes first. -/
theorem Proceeds.fails (forms : host.FormsCompile) {raised : Error}
    (proceeds : host.Proceeds env e w env' e' w₁)
    (pieces : host.Pieces env' e' w₁ (.error raised) w') (pending : List Value) (s : Stream) :
    ∃ rest, host.Compiles env (e :: pending) s w
      ⟨.error (raised.withOrigin e') :: rest, true⟩ w' := by
  induction proceeds generalizing pending s with
  | here => exact ⟨_, compiles_cons.mpr ⟨_, _, pieces, answers_pure.mpr ⟨rfl, rfl⟩⟩⟩
  | replacement replaced _ ih =>
    obtain ⟨rest, compiles⟩ := ih pieces pending s
    exact ⟨rest, compiles_cons.mpr ⟨_, _, replaced, compiles⟩⟩
  | awaited awaits _ ih =>
    obtain ⟨rest, compiled⟩ := ih pieces [] .empty
    obtain ⟨waiting, spliced⟩ := awaits.pieces compiled
    refine ⟨rest ++ waiting ++ s.frames, compiles_cons.mpr ⟨_, _, spliced, ?_⟩⟩
    refine answers_pure.mpr ⟨?_, rfl⟩
    rw [Stream.merge, Bool.or_true]
    rfl
  | @operand env _ e e₁ _ c front behind _ _ _ _ applied succeeds _ ih =>
    obtain ⟨frames, built⟩ := succeeds.built forms
    let called := s.pushCall (.callable c) (front ++ e₁ :: behind).length e
    obtain ⟨rest, compiles⟩ := ih pieces (front.reverse ++ pending)
      ⟨frames ++ called.frames, called.failed⟩
    have operands : (front ++ e₁ :: behind).reverse ++ pending =
        behind.reverse ++ e₁ :: (front.reverse ++ pending) := by simp
    have placed := built.places _ called _ _ compiles
    rw [← operands] at placed
    exact ⟨rest, compiles_cons.mpr ⟨_, _, applied, placed⟩⟩

theorem FailsFirst.compiles (forms : host.FormsCompile) {error : Error}
    (fails : host.FailsFirst env e w error w') :
    ∃ s, host.Answers (·.compile env e) w s w' ∧ s.frames.head? = some (.error error) := by
  obtain ⟨env', origin, w₁, raised, proceeds, pieces, rfl, -⟩ := fails
  obtain ⟨rest, compiles⟩ := proceeds.fails forms pieces [] .empty
  exact ⟨_, compiles, rfl⟩

/-! ### The failed stream -/

/-- A stream ends at its first frame, with a failure whose backtrace is cut at the bound, and with
nothing invoked and the world as it was: executed at once, and as a task that is driven in any
way, which then takes a single slice. -/
def EndsAtOnce (host : Host σ) (s : Stream) (error : Error) : Prop :=
  ∀ (cap : BacktraceCap) (w : World σ) (result : Except Error Value),
    result = .error { error with backtrace := error.backtrace.take (max cap 1) } →
    host.Reaches 1 [] (.pending (.start s cap)) w (.done result) w ∧
    host.Answers (·.execute s cap) w result w ∧
    ∀ (plan : Plan) (budget batch : Nat),
      host.Sliced plan.clocks budget (max batch 1) 0 1 1 [] (.start s cap) w result w ∧
      host.Answers (·.follow plan (.start (.start s cap) budget batch)) w result w

theorem endsAtOnce_of_head {s : Stream} {error : Error}
    (head : s.frames.head? = some (.error error)) : host.EndsAtOnce s error := by
  rintro cap w _ rfl
  obtain ⟨rest, frames⟩ := List.head?_eq_some_iff.mp head
  have start : Machine.start s cap = ⟨.error error :: rest, [], [], max cap 1⟩ := by
    rw [Machine.start, frames]
  have step : host.Steps (.start s cap) w
      (.done (.error { error with backtrace := error.backtrace.take (max cap 1) })) w := by
    rw [start]
    refine steps_error.mpr ⟨?_, rfl⟩
    rw [Error.withTrace, List.append_nil]
  have quiet : (Machine.start s cap).invocation? = Option.none := by
    rw [start]
    rfl
  have reach := step.reaches
  rw [quiet] at reach
  have executes := execute_iff_ends.mpr ⟨_, _, reach⟩
  refine ⟨reach, executes, fun plan budget batch => ⟨?_, ?_⟩⟩
  · exact .last (.ended reach (Nat.le_max_right ..))
  · exact (follow_task_eq_execute s cap budget batch plan w _ w).1.mpr executes

/-- A compilation that fails runs nothing. Its stream has an error frame, which runs first and is
the only one, so running the stream, at once or as a task, ends there. The failure is that of the
first expression that could not be processed, and no other expression is in its backtrace, unless
a declaration, a form of the host or an expander of the host with a failure that has a backtrace
already has handed it on from elsewhere. -/
theorem failed_compilation_runs_nothing (forms : host.FormsCompile) {s : Stream}
    (compiled : host.Answers (·.compile env e) w s w') :
    s.frames ≠ [] ∧ s.errors.length ≤ 1 ∧ (s.failed = true ↔ s.errors ≠ []) ∧
    (s.failed = true ↔ ∃ error, s.frames.head? = some (.error error)) ∧
    ∀ error, (s.frames.head? = some (.error error) ↔ host.FailsFirst env e w error w') ∧
      (s.frames.head? = some (.error error) → host.EndsAtOnce s error) := by
  have judged : host.Verdict env .empty [e] w s w' := by
    obtain ⟨fuel, run⟩ := compiled
    exact verdict_of_run forms run
  have first (error : Error) (fails : host.FailsFirst env e w error w') :
      s.frames.head? = some (.error error) := by
    obtain ⟨s', compiled', head⟩ := fails.compiles forms
    obtain ⟨rfl, -⟩ := compiled.unique (fun below => below.compile env e) compiled'
    exact head
  rcases judged.of_single with ⟨whole, fits⟩ | ⟨error, rest, rfl, failed, clean⟩
  · have clean : s.errors = [] := fits.clean
    have unfailing (error : Error) : s.frames.head? ≠ some (.error error) := by
      intro head
      have member : error ∈ s.errors :=
        List.mem_filterMap.mpr ⟨_, List.mem_of_head? head, rfl⟩
      rw [clean] at member
      cases member
    refine ⟨fits.some, by simp [clean], by simp [whole, clean], by simp [whole, unfailing], ?_⟩
    intro error
    exact ⟨⟨fun head => absurd head (unfailing error), first error⟩, endsAtOnce_of_head⟩
  · have only : Stream.errors ⟨.error error :: rest, true⟩ = [error] :=
      congrArg (error :: ·) clean
    refine ⟨List.cons_ne_nil _ _, by simp [only], by simp [only], by simp, fun error' => ?_⟩
    refine ⟨⟨?_, first error'⟩, endsAtOnce_of_head⟩
    rintro ⟨⟩
    exact failed

end Host

/-! ### A failure inside a form of the host -/

namespace Extension

theorem bindHere_noStream {env : Environment} {operands : List Value} {w w' : World Log}
    {s : Stream} : (bindHere env operands).run.run w ≠ (.ok (.stream s), w') := by
  intro answered
  unfold bindHere at answered
  split at answered
  · rename_i name v
    have answered := bindHere_run.symm.trans answered
    cases bound : (w.bind env name v).1 <;> rw [bound] at answered <;> cases answered
  · cases answered

theorem host_formsCompile : Extension.host.FormsCompile where
  form {name operands env w s w'} := by
    intro answered
    change (((forms.lookup name).getD fun _ _ => throw (.ofFault (.illegalCall name)))
      operands env).run.run w = _ at answered
    cases found : forms.lookup name with
    | none =>
      rw [found] at answered
      cases answered
    | some f =>
      obtain ⟨before, after, split, -⟩ := List.lookup_eq_some_iff.mp found
      have listed : (name, f) ∈ forms := split ▸ List.mem_append_right _ List.mem_cons_self
      rw [found] at answered
      simp only [forms, List.mem_cons, Prod.mk.injEq, List.not_mem_nil, or_false] at listed
      rcases listed with ⟨-, rfl⟩ | ⟨-, rfl⟩ | ⟨-, rfl⟩ | ⟨-, rfl⟩ | ⟨-, rfl⟩
      · cases operands <;> cases answered
      · cases answered
      · cases answered
      · exact bindHere_noStream answered
      · exact bindHere_noStream answered

/-- The root of a new interpreter with the library and the extensions. -/
def extended : Environment × World Log :=
  let built := Interpreter.build ⟨{}, 0, []⟩ Library.table Extension.table {}
  (built.1.root, built.2)

/-- `(list a (when (if b t) nil) t)` -/
def unready : Value :=
  .list [.symbol "list", .symbol "a",
    .list [.symbol "when", .list [.symbol "if", .symbol "b", .truth], .nil], .truth]

end Extension

open Extension in
/-- Neither `a` nor `b` is bound. The failure is that of `b`, as the second operand is met before
the first, and the choice, the form of the host and the application around it are not in its
backtrace, although their call frames wait behind it. -/
theorem Host.failed_compilation_runs_nothing_nested :
    Extension.host.FormsCompile ∧ ∃ s w',
      Extension.host.Answers (·.compile extended.1 unready) extended.2 s w' ∧
      s.failed = true ∧ s.frames.length = 5 ∧
      Extension.host.FailsFirst extended.1 unready extended.2
        ⟨.unbound "b", [.symbol "b"]⟩ w' ∧
      Extension.host.EndsAtOnce s ⟨.unbound "b", [.symbol "b"]⟩ := by
  have compiled : Extension.host.Answers (·.compile extended.1 unready) extended.2 _ _ := ⟨20, rfl⟩
  obtain ⟨-, -, -, -, first⟩ := Host.failed_compilation_runs_nothing host_formsCompile compiled
  obtain ⟨fails, ends⟩ := first ⟨.unbound "b", [.symbol "b"]⟩
  exact ⟨host_formsCompile, _, _, compiled, rfl, rfl, fails.mp rfl, ends rfl⟩

end CooperativeLisp

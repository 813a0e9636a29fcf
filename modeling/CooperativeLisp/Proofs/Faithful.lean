import CooperativeLisp.Proofs.Compiled

/-!
What an engine compiles is what the direct evaluator resolves. An engine is faithful if it evaluates
nested expressions as the direct evaluator does; everything it compiles and invokes is then
explained by a derivation.
-/

namespace CooperativeLisp

variable {σ : Type}

/-- The streams that a host builds by hand are sound. -/
structure Host.Sound (host : Host σ) : Prop where
  native : ∀ {name args w s w'},
    (host.native name args).run.run w = (.ok (.answer (.stream s)), w') → s.Sound
  form : ∀ {name operands env w s w'},
    (host.form name operands env).run.run w = (.ok (.stream s), w') → s.Sound

/-- An engine of the host whose nested evaluations are right. -/
structure Engine.Faithful (host : Host σ) (g : Engine σ) : Prop where
  same : g.host = host
  evaluate : ∀ {env e cap w r w'}, g.evaluate env e cap w = some (r, w') →
    host.Direct env e w (r.mapError Error.fault) w'

namespace Host

variable {host : Host σ} {env : Environment} {e : Value} {w w' w₁ : World σ}

/-! ### Operands -/

namespace ResolvesAll

variable {es fs : List Value} {ts : List Resolved} {r : Except Fault (List Resolved)}

theorem append (last : host.ResolvesAll env fs w (.ok ts) w₁)
    (first : host.ResolvesAll env es w₁ r w') :
    host.ResolvesAll env (es ++ fs) w (r.map (· ++ ts)) w' := by
  induction es generalizing r w' with
  | nil =>
    cases first
    exact last
  | cons e es ih =>
    cases first with
    | @cons _ _ _ us _ _ _ r all one =>
      have whole := ResolvesAll.cons (ih all) one
      cases r with
      | ok t => exact whole
      | error f => exact whole
    | fails all => exact .fails (ih all)

theorem append_fails {f : Fault} (last : host.ResolvesAll env fs w (.error f) w') :
    host.ResolvesAll env (es ++ fs) w (.error f) w' := by
  induction es with
  | nil => exact last
  | cons e es ih => exact .fails ih

theorem of_append (whole : host.ResolvesAll env (es ++ fs) w r w') :
    (∃ f, r = .error f ∧ host.ResolvesAll env fs w (.error f) w') ∨
      ∃ ts w₁ r', host.ResolvesAll env fs w (.ok ts) w₁ ∧ host.ResolvesAll env es w₁ r' w' ∧
        r = r'.map (· ++ ts) := by
  induction es generalizing r w' with
  | nil =>
    cases r with
    | error f => exact Or.inl ⟨f, rfl, whole⟩
    | ok ts => exact Or.inr ⟨ts, w', .ok [], whole, .nil, rfl⟩
  | cons e es ih =>
    cases whole with
    | @cons _ _ _ us _ w₁ _ r all one =>
      obtain ⟨f, same, -⟩ | ⟨ts, w₂, r', last, first, same⟩ := ih all
      · cases same
      · cases r' with
        | error f => cases same
        | ok us' =>
          cases same
          refine Or.inr ⟨ts, w₂, _, last, .cons first one, ?_⟩
          cases r <;> rfl
    | fails all =>
      obtain ⟨f, same, last⟩ | ⟨ts, w₂, r', last, first, same⟩ := ih all
      · cases same
        exact Or.inl ⟨_, rfl, last⟩
      · cases r' with
        | error f =>
          cases same
          exact Or.inr ⟨ts, w₂, .error _, last, .fails first, rfl⟩
        | ok us => cases same

theorem single {r : Except Fault Resolved} (resolves : host.Resolves env e w r w') :
    host.ResolvesAll env [e] w (r.map ([·])) w' :=
  .cons .nil resolves

theorem of_single (resolves : host.ResolvesAll env [e] w r w') :
    ∃ r', host.Resolves env e w r' w' ∧ r = r'.map ([·]) := by
  cases resolves with
  | cons all one =>
    cases all
    exact ⟨_, one, rfl⟩
  | fails all => cases all

end ResolvesAll

/-- Where several expressions have been resolved in the place of one, so has that one. -/
theorem ResolvesAll.replace {es fs : List Value} {r : Except Fault (List Resolved)}
    {k : List Resolved → Resolved} (whole : host.ResolvesAll env (es ++ fs) w₁ r w')
    (instead : ∀ {r w'}, host.ResolvesAll env fs w₁ r w' → host.Resolves env e w (r.map k) w') :
    (∃ f, r = .error f ∧ host.ResolvesAll env (es ++ [e]) w (.error f) w') ∨
      ∃ us ts, r = .ok (us ++ ts) ∧ ts.length = fs.length ∧
        host.ResolvesAll env (es ++ [e]) w (.ok (us ++ [k ts])) w' := by
  obtain ⟨f, rfl, last⟩ | ⟨ts, w₂, r', last, first, rfl⟩ := whole.of_append
  · exact Or.inl ⟨f, rfl, .append_fails (.single (instead last))⟩
  · have resolves := ResolvesAll.append (.single (instead last)) first
    cases r' with
    | error f => exact Or.inl ⟨f, rfl, resolves⟩
    | ok us => exact Or.inr ⟨us, ts, rfl, last.length rfl, resolves⟩

/-! ### Streams -/

/-- A work list is resolved from its end, and the frames of its trees stand in front of the
stream. -/
def ExplainsStream (host : Host σ) (env : Environment) (pending : List Value) (s : Stream)
    (w : World σ) (s' : Stream) (w' : World σ) : Prop :=
  ∃ r, host.ResolvesAll env pending.reverse w r w' ∧ match r with
    | .ok ts => s' = ⟨Resolved.allFrames ts ++ s.frames, s.failed⟩
    | .error f => s'.Renders (.error f)

namespace ExplainsStream

variable {pending : List Value} {s s₁ s' : Stream}

theorem single (explains : host.ExplainsStream env [e] .empty w s' w') :
    ∃ r, host.Resolves env e w r w' ∧ s'.Renders r := by
  obtain ⟨r, resolves, stream⟩ := explains
  obtain ⟨r', one, rfl⟩ := resolves.of_single
  refine ⟨r', one, ?_⟩
  cases r' with
  | ok t =>
    subst stream
    refine ⟨rfl, ?_⟩
    simp [Resolved.allFrames, Stream.empty]
  | error f => exact stream

theorem fails {f : Fault} (resolves : host.Resolves env e w (.error f) w')
    (renders : s'.Renders (.error f)) : host.ExplainsStream env (e :: pending) s w s' w' := by
  refine ⟨.error f, ?_, renders⟩
  rw [List.reverse_cons]
  exact .append_fails (.single resolves)

/-- What explains the stream of other expressions in the place of one explains its own. -/
theorem replace (fs : List Value) (k : List Resolved → Resolved)
    (explains : host.ExplainsStream env (fs.reverse ++ pending) s₁ w₁ s' w')
    (instead : ∀ {r w'}, host.ResolvesAll env fs w₁ r w' → host.Resolves env e w (r.map k) w')
    (frames : ∀ ts, ts.length = fs.length →
      Resolved.allFrames ts ++ s₁.frames = (k ts).frames ++ s.frames)
    (failed : s₁.failed = s.failed) : host.ExplainsStream env (e :: pending) s w s' w' := by
  obtain ⟨r, resolves, stream⟩ := explains
  rw [List.reverse_append, List.reverse_reverse] at resolves
  obtain ⟨f, rfl, resolves⟩ | ⟨us, ts, rfl, length, resolves⟩ := resolves.replace instead
  · exact ⟨.error f, by rwa [List.reverse_cons], stream⟩
  · refine ⟨.ok (us ++ [k ts]), by rwa [List.reverse_cons], ?_⟩
    dsimp only at stream ⊢
    rw [stream, failed, Resolved.allFrames_append, List.append_assoc, frames ts length]
    simp [Resolved.allFrames_append, Resolved.allFrames]

/-- A tree that stands in front of the stream has been resolved. -/
theorem tree {t : Resolved} (explains : host.ExplainsStream env pending s₁ w₁ s' w')
    (resolves : host.Resolves env e w (.ok t) w₁) (frames : s₁.frames = t.frames ++ s.frames)
    (failed : s₁.failed = s.failed) : host.ExplainsStream env (e :: pending) s w s' w' := by
  refine replace [] (fun _ => t) explains (fun all => ?_) (fun ts length => ?_) failed
  · cases all
    exact resolves
  · rw [List.eq_nil_of_length_eq_zero length, frames]
    rfl

/-- An expression in the place of another is resolved to the tree of both. -/
theorem instead {e' : Value} (explains : host.ExplainsStream env (e' :: pending) s w₁ s' w')
    (resolves : ∀ {r w'}, host.Resolves env e' w₁ r w' → host.Resolves env e w r w') :
    host.ExplainsStream env (e :: pending) s w s' w' := by
  refine replace [e'] (fun ts => ts.headD (.value .nil)) explains (fun all => ?_)
    (fun ts length => ?_) rfl
  · obtain ⟨r', one, rfl⟩ := all.of_single
    have resolved := resolves one
    cases r' with
    | ok t => exact resolved
    | error f => exact resolved
  · obtain ⟨t, rfl⟩ := List.length_eq_one_iff.mp length
    simp [Resolved.allFrames]

end ExplainsStream

/-! ### Pieces -/

/-- What a piece says of the expression it was compiled from. -/
def ExplainsPiece (host : Host σ) (env : Environment) (e : Value) (w : World σ)
    (piece : Except Error Piece) (w' : World σ) : Prop :=
  match piece with
  | .error error => host.Resolves env e w (.error error.fault) w'
  | .ok (.value v) => host.Resolves env e w (.ok (.value v)) w'
  | .ok (.splice s) => ∃ r, s.Renders r ∧ host.Resolves env e w r w'
  | .ok (.instead e') => ∀ r w'', host.Resolves env e' w' r w'' → host.Resolves env e w r w''
  | .ok (.application c operands) => ∀ r w'', host.ResolvesAll env operands w' r w'' →
    host.Resolves env e w (r.map fun ts => .application (.callable c) ts e) w''

end Host

namespace Engine.Faithful

variable {host : Host σ} {g : Engine σ} {nested : Environment → Value → Effect σ Stream}
variable {env : Environment} {e : Value} {w w' : World σ}

/-- Every stream compiled for an expression is that of its tree. -/
def Resolving (host : Host σ) (nested : Environment → Value → Effect σ Stream) : Prop :=
  ∀ {env e w s w'}, nested env e w = some (s, w') →
    ∃ r, host.Resolves env e w r w' ∧ s.Renders r

theorem declare (faithful : g.Faithful host) {root : Environment} {cap : BacktraceCap}
    {bs : List Binding} {answer : Except Error Value}
    (run : (g.declare root cap bs).run w = some (answer, w')) :
    ∃ r, host.Declares root bs w r w' ∧ answer.mapError Error.fault = r.map fun _ => .truth := by
  induction bs generalizing w with
  | nil =>
    obtain ⟨rfl, rfl⟩ := Effect.pure_eq_some.mp run
    exact ⟨.ok (), .nil, rfl⟩
  | cons b bs ih =>
    cases named : Engine.declaredName b.name with
    | error e =>
      obtain ⟨rfl, rfl⟩ := Effect.pure_eq_some.mp ((declare_noName named).symm.trans run)
      exact ⟨_, .noName named, rfl⟩
    | ok name =>
      cases bound : w.scopes.binds root name with
      | true =>
        obtain ⟨rfl, rfl⟩ := Effect.pure_eq_some.mp ((declare_defined named bound).symm.trans run)
        exact ⟨_, .defined named bound, rfl⟩
      | false =>
        rw [declare_fresh named bound] at run
        obtain ⟨v, w₁, evaluates, run⟩ | ⟨e, evaluates, rfl⟩ := Attempt.run_bind.mp run
        · have direct := faithful.evaluate evaluates
          cases binds : w₁.bind root name v with
          | mk result w₂ =>
            cases result with
            | error e =>
              obtain ⟨rfl, rfl⟩ :=
                Effect.pure_eq_some.mp ((declareRest_refused binds).symm.trans run)
              exact ⟨_, .bindsNot named bound direct binds, rfl⟩
            | ok _ =>
              obtain ⟨r, declares, same⟩ := ih ((declareRest_bound binds).symm.trans run)
              exact ⟨r, .cons named bound direct binds declares, same⟩
        · exact ⟨_, .fails named bound (faithful.evaluate evaluates), rfl⟩

theorem compileBefore {f : Form} {operands : List Value} {waiting : Stream}
    {answer : Except Error Outcome} (inner : Resolving host nested)
    (form : g.formAnswer nested f operands env =
      do return .stream (← Engine.compileBefore nested env e waiting))
    (run : (g.formAnswer nested f operands env).run w = some (answer, w')) :
    ∃ s r, answer = .ok (.stream (waiting.merge s)) ∧ host.Resolves env e w r w' ∧ s.Renders r := by
  rw [form, formAnswer_compileBefore] at run
  obtain ⟨s, compiled, rfl⟩ := Effect.map_eq_some.mp run
  obtain ⟨r, resolves, renders⟩ := inner compiled
  exact ⟨s, r, rfl, resolves, renders⟩

theorem formAnswer (faithful : g.Faithful host) (sound : host.Sound)
    (inner : Resolving host nested) {f : Form} {operands : List Value}
    {answer : Except Error Outcome} (admitted : f.arity.Admits operands.length)
    (run : (g.formAnswer nested f operands env).run w = some (answer, w')) :
    ∃ r, host.Applies f operands env w r w' ∧ Outcome.Renders answer r := by
  cases f with
  | quote =>
    obtain ⟨v, rfl⟩ := List.length_eq_one_iff.mp admitted
    obtain ⟨rfl, rfl⟩ := Effect.pure_eq_some.mp run
    exact ⟨_, .quote, rfl⟩
  | lambda =>
    cases operands with
    | nil => exact absurd admitted (Nat.not_succ_le_zero 0)
    | cons params body =>
      rw [formAnswer_lambda] at run
      cases made : w.makeClosure params (bodyOf body) env with
      | mk result w₁ =>
        rw [made] at run
        cases result with
        | error e =>
          cases run
          exact ⟨_, .lambdaFails made, rfl⟩
        | ok c =>
          cases run
          exact ⟨_, .lambda made, rfl⟩
  | conditional =>
    match operands, admitted with
    | [c, t], _ =>
      obtain ⟨s, r, rfl, resolves, renders⟩ := compileBefore inner rfl run
      exact ⟨_, .choice resolves, renders.choice⟩
    | [c, t, e], _ =>
      obtain ⟨s, r, rfl, resolves, renders⟩ := compileBefore inner rfl run
      exact ⟨_, .fullChoice resolves, renders.choice⟩
    | c :: t :: e :: e' :: es, _ =>
      obtain ⟨rfl, rfl⟩ := Effect.pure_eq_some.mp run
      exact ⟨_, .manyBranches, rfl⟩
  | sequence =>
    cases operands with
    | nil =>
      obtain ⟨rfl, rfl⟩ := Effect.pure_eq_some.mp run
      exact ⟨_, .emptySequence, rfl⟩
    | cons first rest =>
      obtain ⟨s, r, rfl, resolves, renders⟩ := compileBefore inner rfl run
      exact ⟨_, .sequence resolves, renders.sequence⟩
  | exports cap =>
    obtain ⟨v, rfl⟩ := List.length_eq_one_iff.mp admitted
    cases read : Binding.readAll v with
    | error e =>
      rw [formAnswer_noBindings read] at run
      cases run
      exact ⟨_, .noBindings read, rfl⟩
    | ok bindings =>
      rw [formAnswer_exports read] at run
      obtain ⟨declared, declaring, rfl⟩ := Effect.map_eq_some.mp run
      obtain ⟨r, declares, same⟩ := faithful.declare declaring
      refine ⟨_, .exports read declares, ?_⟩
      cases declared <;> cases r <;> cases same <;> rfl
  | host name =>
    cases replied : (host.form name operands env).run.run w with
    | mk reply w₁ =>
      have answered := replied
      rw [← faithful.same] at answered
      obtain e | v | s | ⟨env', e⟩ := reply
      · rw [formAnswer_hostFails answered] at run
        cases run
        exact ⟨_, .hostFails replied, rfl⟩
      · rw [formAnswer_hostValue answered] at run
        cases run
        exact ⟨_, .hostValue replied, rfl⟩
      · rw [formAnswer_hostStream answered] at run
        cases run
        obtain ⟨r, renders⟩ := Stream.sound_iff_renders.mp (sound.form replied)
        exact ⟨r, .hostStream replied renders, renders⟩
      · rw [formAnswer_hostCompile answered] at run
        obtain ⟨s, compiled, rfl⟩ := Effect.map_eq_some.mp run
        obtain ⟨r, resolves, renders⟩ := inner compiled
        exact ⟨r, .hostCompile replied resolves, renders⟩

theorem compileApplication (faithful : g.Faithful host) (sound : host.Sound)
    (inner : Resolving host nested) {operator : Value} {operands : List Value} {c : Callable}
    {piece : Except Error Piece} (resolved : w.scopes.operator env operator = .ok c)
    (run : (g.compileApplication nested env operands c).run w = some (piece, w')) :
    host.ExplainsPiece env (Library.apply operator operands) w piece w' := by
  cases c with
  | expander r =>
    rw [compileApplication_expander, faithful.same] at run
    cases expansion : host.expansion r operands env w with
    | mk result w₁ =>
      rw [expansion] at run
      cases result with
      | error e =>
        cases run
        exact .expandsNot resolved expansion
      | ok e =>
        cases run
        exact fun _ _ resolves => .expands resolved expansion resolves
  | form f =>
    rw [compileApplication_form] at run
    obtain ⟨answer, applied, rfl⟩ := Effect.map_eq_some.mp run
    by_cases admitted : f.arity.Admits operands.length
    · rw [applyForm_admitted admitted] at applied
      obtain ⟨r, applies, renders⟩ := faithful.formAnswer sound inner admitted applied
      have resolves := Host.Resolves.form resolved admitted applies
      obtain e | v | s := answer
      · cases renders
        exact resolves
      · cases renders
        exact resolves
      · exact ⟨r, renders, resolves⟩
    · rw [applyForm_refused admitted] at applied
      cases applied
      exact .formArity resolved admitted
  | native n =>
    cases (compileApplication_function (c := .native n) trivial).symm.trans run
    exact fun _ _ all => .application resolved trivial all
  | closure f =>
    cases (compileApplication_function (c := .closure f) trivial).symm.trans run
    exact fun _ _ all => .application resolved trivial all

theorem compileOne (faithful : g.Faithful host) (sound : host.Sound)
    (inner : Resolving host nested) {piece : Except Error Piece}
    (run : (g.compileOne nested env e).run w = some (piece, w')) :
    host.ExplainsPiece env e w piece w' := by
  by_cases atom : e.IsAtom
  · cases (compileOne_atom atom).symm.trans run
    exact .atom atom
  match e with
  | .symbol name =>
    by_cases isNil : name = Symbol.nilName
    · subst isNil
      obtain ⟨rfl, rfl⟩ := Effect.pure_eq_some.mp run
      exact .nilMarker
    by_cases isTruth : name = Symbol.truthName
    · subst isTruth
      obtain ⟨rfl, rfl⟩ := Effect.pure_eq_some.mp run
      exact .truthMarker
    rw [compileOne_symbol isNil isTruth] at run
    unfold Scopes.lookup at run
    cases bound : w.scopes.get? env name with
    | none =>
      rw [bound] at run
      cases run
      exact .unbound isNil isTruth bound
    | some v =>
      rw [bound] at run
      cases run
      exact .symbol isNil isTruth bound
  | .list [] =>
    obtain ⟨rfl, rfl⟩ := Effect.pure_eq_some.mp run
    exact .empty
  | .list (operator :: operands) =>
    by_cases computed : operator.IsComputed
    · cases (compileOne_computed computed).symm.trans run
      exact fun _ _ resolves => .computed computed resolves
    cases resolved : w.scopes.operator env operator with
    | error f =>
      cases (compileOne_noOperator computed resolved).symm.trans run
      exact .noOperator computed resolved
    | ok c =>
      exact faithful.compileApplication sound inner resolved
        ((compileOne_operator resolved).symm.trans run)
  | .number _ | .nil | .truth | .callable _ => exact absurd trivial atom

/-- Every stream that a work list is compiled to is explained by its trees. -/
theorem compileOnto (faithful : g.Faithful host) (sound : host.Sound) {n : Nat}
    {pending : List Value} {s s' : Stream}
    (run : g.compileOnto n env pending s w = some (s', w')) :
    host.ExplainsStream env pending s w s' w' := by
  induction n generalizing env pending s s' w w' with
  | zero => exact absurd run Effect.exhausted_ne_some
  | succ n ih =>
    cases pending with
    | nil =>
      obtain ⟨rfl, rfl⟩ := Effect.pure_eq_some.mp run
      exact ⟨.ok [], .nil, rfl⟩
    | cons e pending =>
      rw [compileOnto_succ] at run
      obtain ⟨piece, w₁, first, run⟩ := Effect.bind_eq_some.mp run
      have inner : Resolving host fun env e => g.compileOnto n env [e] .empty :=
        fun run => (ih run).single
      have explained := faithful.compileOne sound inner first
      obtain error | v | more | e' | ⟨c, operands⟩ := piece
      · obtain ⟨rfl, rfl⟩ := Effect.pure_eq_some.mp run
        exact .fails explained ⟨rfl, error.withOrigin e, s.frames, rfl, rfl⟩
      · exact (ih run).tree explained rfl rfl
      · obtain ⟨r, renders, resolves⟩ := explained
        cases r with
        | ok t =>
          obtain ⟨whole, frames⟩ := renders
          simp only [placed, whole, Bool.false_eq_true, if_false] at run
          refine (ih run).tree resolves (by rw [Stream.merge, frames]) ?_
          rw [Stream.merge, whole, Bool.or_false]
        | error f =>
          obtain ⟨failed, e', rest, frames, cause⟩ := renders
          simp only [placed, failed, if_true] at run
          obtain ⟨rfl, rfl⟩ := Effect.pure_eq_some.mp run
          refine .fails resolves ⟨?_, e', rest ++ s.frames, ?_, cause⟩
          · rw [Stream.merge, failed, Bool.or_true]
          · rw [Stream.merge, frames, List.cons_append]
      · refine (ih run).instead fun resolves => explained _ _ resolves
      · refine (ih run).replace operands _ (fun all => explained _ _ all) (fun ts length => ?_) rfl
        rw [← length]
        simp [Stream.pushCall, Resolved.frames]

/-- Every stream that an expression is compiled to is that of its tree. -/
theorem compile (faithful : g.Faithful host) (sound : host.Sound) : Resolving host g.compile :=
  fun run => (faithful.compileOnto sound run).single

end Engine.Faithful

end CooperativeLisp

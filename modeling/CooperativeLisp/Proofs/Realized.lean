import CooperativeLisp.Proofs.Placed

/-!
The engine finds what the direct evaluator finds. Resolving an expression shows in the stream it is
compiled to, evaluating a tree shows in the run of its frames whatever waits below them, and a call
shows in what the machine does with the answer of the invocation.
-/

namespace CooperativeLisp

variable {σ : Type}

/-- The machine with frames in front of its own. -/
def Machine.before (m : Machine) (frames : List Frame) : Machine :=
  { m with frames := frames ++ m.frames }

theorem Machine.before_append (m : Machine) (frames rest : List Frame) :
    m.before (frames ++ rest) = (m.before rest).before frames := by
  simp only [Machine.before, List.append_assoc]

namespace Host

variable {host : Host σ} {env : Environment} {e : Value} {cap : BacktraceCap}
variable {w w' w₁ : World σ} {a b : Advance} {m m' : Machine}

/-! ### Evaluations to the end -/

theorem evaluate_iff_evaluateOnce {r : Except Error Value} :
    host.Answers (·.evaluate env e cap) w r w' ↔
      host.Answers (·.evaluateOnce env e cap) w r w' := by
  constructor
  · rintro ⟨fuel, run⟩
    cases fuel with
    | zero => cases run
    | succ fuel => exact ⟨fuel, run⟩
  · rintro ⟨fuel, run⟩
    exact ⟨fuel + 1, run⟩

theorem evaluateOnce_iff {r : Except Error Value} :
    host.Answers (·.evaluateOnce env e cap) w r w' ↔
      ∃ s w₁, host.Answers (·.compile env e) w s w₁ ∧ host.Ends (.pending (.start s cap)) w₁ r w' := by
  have steady : Engine.Steady fun g : Engine σ => g.compile env e := fun below => below.compile env e
  have steadyRun : ∀ s, Engine.Steady fun g : Engine σ => g.execute s cap :=
    fun s _ _ below => below.execute s cap
  refine (answers_bind steady steadyRun).trans ?_
  simp only [execute_iff_ends]

theorem ends_settle {r : Except Error Value} :
    host.Ends m.settle w r w' ↔ host.Ends (.pending m) w r w' := by
  obtain ⟨frames, stack, trace, cap⟩ := m
  cases frames with
  | nil => exact (steps_nil.mpr ⟨rfl, rfl⟩).reaches.ends_iff.symm
  | cons f frames => exact Iff.rfl

/-! ### Runs on top of a machine -/

/-- From a point of a run, the machine `m` comes to its own frames with values on top of its own,
or the run fails. -/
def Delivers (host : Host σ) (a : Advance) (w : World σ) (m : Machine)
    (r : Except Fault (List Value)) (w' : World σ) : Prop :=
  match r with
  | .ok vs => ∃ n calls trace,
    host.Reaches n calls a w (Machine.settle ⟨m.frames, vs.reverse ++ m.stack, trace, m.cap⟩) w'
  | .error f => ∃ n calls e, host.Reaches n calls a w (.done (.error e)) w' ∧ e.fault = f

namespace Delivers

variable {r : Except Fault (List Value)} {vs : List Value} {f : Fault}

theorem after {n : Nat} {calls : List Invocation} (reach : host.Reaches n calls a w b w₁)
    (delivers : host.Delivers b w₁ m r w') : host.Delivers a w m r w' := by
  cases r with
  | ok vs =>
    obtain ⟨k, more, trace, rest⟩ := delivers
    exact ⟨_, _, trace, reach.trans rest⟩
  | error f =>
    obtain ⟨k, more, e, rest, cause⟩ := delivers
    exact ⟨_, _, e, reach.trans rest, cause⟩

theorem bind (first : host.Delivers a w m' (.ok vs) w₁)
    (rest : ∀ trace, host.Delivers
      (Machine.settle ⟨m'.frames, vs.reverse ++ m'.stack, trace, m'.cap⟩) w₁ m r w') :
    host.Delivers a w m r w' := by
  obtain ⟨n, calls, trace, reach⟩ := first
  exact .after reach (rest trace)

theorem value {v : Value} : host.Delivers (m.before [.value v]).settle w m (.ok [v]) w :=
  ⟨_, _, m.trace, (steps_value.mpr ⟨rfl, rfl⟩).reaches⟩

theorem error {e : Error} {rest : List Frame} :
    host.Delivers (m.before (.error e :: rest)).settle w m (.error e.fault) w :=
  ⟨_, _, _, (steps_error.mpr ⟨rfl, rfl⟩).reaches, rfl⟩

theorem call {operation : Operation} {args trace : List Value} {origin : Value}
    {answer : Except Error Outcome} (performs : host.Performs operation args w answer w₁)
    (delivers : ∀ m, host.Delivers (Machine.answered m answer) w₁ m r w') :
    host.Delivers (Machine.settle ⟨.call operation args.length origin :: m.frames,
      args.reverse ++ m.stack, trace, m.cap⟩) w m r w' := by
  refine .after performs.step.reaches ?_
  have rest := delivers ⟨m.frames, m.stack, (origin :: trace).take m.cap, m.cap⟩
  cases r with
  | ok vs => exact rest
  | error f => exact rest

/-- What a stream delivers to an empty machine is its result. -/
theorem evaluateOnce {s : Stream} {r : Except Fault Value} (cap : BacktraceCap)
    (compiled : host.Answers (·.compile env e) w s w₁)
    (delivers : ∀ m, host.Delivers (Machine.answered m (.ok (.stream s))) w₁ m (r.map ([·])) w') :
    ∃ r', host.Answers (·.evaluateOnce env e cap) w r' w' ∧ r'.mapError Error.fault = r := by
  have delivers := delivers ⟨[], [], [], max cap 1⟩
  rw [Machine.answered_start] at delivers
  cases r with
  | ok v =>
    obtain ⟨n, calls, trace, reach⟩ := delivers
    have ends : host.Ends (Machine.start s cap).settle w₁ (.ok v) w' := ⟨n, calls, reach⟩
    exact ⟨.ok v, evaluateOnce_iff.mpr ⟨s, w₁, compiled, ends_settle.mp ends⟩, rfl⟩
  | error f =>
    obtain ⟨n, calls, e', reach, cause⟩ := delivers
    have ends : host.Ends (Machine.start s cap).settle w₁ (.error e') w' := ⟨n, calls, reach⟩
    exact ⟨.error e', evaluateOnce_iff.mpr ⟨s, w₁, compiled, ends_settle.mp ends⟩,
      congrArg Except.error cause⟩

/-- A stream of a tree delivers what the tree delivers. -/
theorem of_tree {s : Stream} {t : Resolved} (renders : s.Renders (.ok t))
    (delivers : host.Delivers (m.before t.frames).settle w m r w') :
    host.Delivers (Machine.answered m (.ok (.stream s))) w m r w' := by
  rw [← renders.2] at delivers
  exact delivers

/-- A failed stream delivers its failure. -/
theorem of_failed {s : Stream} (renders : s.Renders (.error f)) (m : Machine) :
    host.Delivers (Machine.answered m (.ok (.stream s))) w m (.error f) w := by
  obtain ⟨-, e, rest, frames, rfl⟩ := renders
  have fails : host.Delivers (m.before (.error e :: rest)).settle w m (.error e.fault) w := .error
  rw [← frames] at fails
  exact fails

/-- Values on top of a value are values on top of the machine below it. -/
theorem push {v : Value} {trace : List Value}
    (delivers : host.Delivers a w ⟨m.frames, v :: m.stack, trace, m.cap⟩ r w') :
    host.Delivers a w m (r.map (v :: ·)) w' := by
  cases r with
  | ok vs =>
    obtain ⟨n, calls, trace, reach⟩ := delivers
    refine ⟨n, calls, trace, ?_⟩
    rwa [List.reverse_cons, List.append_assoc, List.singleton_append]
  | error f => exact delivers

end Delivers

/-! ### Forms and declarations -/

variable {f : Form} {operator : Value} {operands : List Value} {r : Except Fault Resolved}

theorem Pieces.of_form {answer : Except Error Outcome}
    (resolved : w.scopes.operator env operator = .ok (.form f))
    (admitted : f.arity.Admits operands.length)
    (answers : host.Answers (fun g => (g.formAnswer g.compile f operands env).run) w answer w') :
    host.Pieces env (Library.apply operator operands) w (answer.map Outcome.piece) w' := by
  refine answers.imp fun g _ run => ?_
  rw [Engine.compileOne_operator resolved, Engine.compileApplication_form,
    Engine.applyForm_admitted admitted]
  exact Effect.map_eq_some.mpr ⟨_, run, rfl⟩

theorem Places.of_form {answer : Except Error Outcome}
    (resolved : w.scopes.operator env operator = .ok (.form f))
    (admitted : f.arity.Admits operands.length)
    (answers : host.Answers (fun g => (g.formAnswer g.compile f operands env).run) w answer w')
    (renders : Outcome.Renders answer r) :
    host.Places env [Library.apply operator operands] w (r.map Resolved.frames) w' := by
  have pieces := Pieces.of_form resolved admitted answers
  obtain e | v | s := answer
  · cases renders
    exact .of_error pieces
  · cases renders
    exact .of_value pieces
  · exact .of_splice pieces renders

theorem Places.of_operands {c : Callable} {r : Except Fault (List Resolved)}
    (resolved : w.scopes.operator env operator = .ok c) (function : c.IsFunction)
    (places : host.Places env operands.reverse w (r.map Resolved.allFrames) w')
    (length : ∀ ts, r = .ok ts → ts.length = operands.length) :
    host.Places env [Library.apply operator operands] w ((r.map fun ts =>
      Resolved.application (.callable c) ts (Library.apply operator operands)).map Resolved.frames)
      w' := by
  have pieces : host.Pieces env (Library.apply operator operands) w
      (.ok (.application c operands)) w := .of_run fun g _ => by
    rw [Engine.compileOne_operator resolved, Engine.compileApplication_function function]
  have places := Places.of_application pieces places
  cases r with
  | ok ts =>
    rw [← length ts rfl] at places
    exact places
  | error f => exact places

theorem Places.of_cons {es : List Value} {ts : List Resolved}
    (first : host.Places env es.reverse w (.ok (Resolved.allFrames ts)) w₁)
    (rest : host.Places env [e] w₁ (r.map Resolved.frames) w') :
    host.Places env (e :: es).reverse w ((r.map (· :: ts)).map Resolved.allFrames) w' := by
  have places := first.append rest
  rw [List.reverse_cons]
  cases r with
  | ok t => exact places
  | error f => exact places

/-- A form answers with its first operand in front of what waits for the value. -/
theorem answers_compileBefore {waiting s : Stream} (compiled : host.Answers (·.compile env e) w s w')
    (form : ∀ g : Engine σ, g.formAnswer g.compile f operands env =
      do return .stream (← Engine.compileBefore g.compile env e waiting)) :
    host.Answers (fun g => (g.formAnswer g.compile f operands env).run) w
      (.ok (.stream (waiting.merge s))) w' := by
  refine compiled.imp fun g _ run => ?_
  rw [form, Engine.formAnswer_compileBefore]
  exact Effect.map_eq_some.mpr ⟨_, run, rfl⟩

theorem answers_exports {v : Value} {bindings : List Binding} {r : Except Fault Unit}
    (read : Binding.readAll v = .ok bindings)
    (declares : ∃ answer, host.Answers (fun g => (g.declare env.root cap bindings).run) w answer w' ∧
      answer.mapError Error.fault = r.map fun _ => .truth) :
    ∃ answer, host.Answers (fun g => (g.formAnswer g.compile (.exports cap) [v] env).run) w answer
      w' ∧ Outcome.Renders answer (r.map fun _ => .value .truth) := by
  obtain ⟨answer, answers, same⟩ := declares
  refine ⟨answer.map .value, answers.imp fun g _ run => ?_, ?_⟩
  · rw [Engine.formAnswer_exports read]
    exact Effect.map_eq_some.mpr ⟨_, run, rfl⟩
  · cases answer <;> cases r <;> cases same <;> rfl

section Declarations

variable {root : Environment} {b : Binding} {bs : List Binding} {name : String}

/-- A nested evaluation has the result that the compiled stream delivers. -/
theorem evaluates_of_compiles {r : Except Fault Value} (cap : BacktraceCap)
    (compiles : ∃ s w₁, host.Answers (·.compile env e) w s w₁ ∧
      ∀ m, host.Delivers (Machine.answered m (.ok (.stream s))) w₁ m (r.map ([·])) w') :
    ∃ r', host.Answers (·.evaluate env e cap) w r' w' ∧ r'.mapError Error.fault = r := by
  obtain ⟨s, w₁, compiled, delivers⟩ := compiles
  obtain ⟨r', answers, same⟩ := Delivers.evaluateOnce cap compiled delivers
  exact ⟨r', evaluate_iff_evaluateOnce.mpr answers, same⟩

theorem answers_declare_fails {e : Error} (named : Engine.declaredName b.name = .ok name)
    (fresh : w.scopes.binds root name = false)
    (fails : host.Answers (·.evaluate root b.init cap) w (.error e) w') :
    host.Answers (fun g => (g.declare root cap (b :: bs)).run) w (.error e) w' := by
  refine fails.imp fun g _ run => ?_
  rw [Engine.declare_fresh named fresh]
  exact Attempt.run_bind_error run

theorem answers_declare_rest {v : Value} {answer : Except Error Value}
    (named : Engine.declaredName b.name = .ok name) (fresh : w.scopes.binds root name = false)
    (evaluates : host.Answers (·.evaluate root b.init cap) w (.ok v) w₁)
    (rest : host.Answers (fun g => (g.declareRest root cap name bs v).run) w₁ answer w') :
    host.Answers (fun g => (g.declare root cap (b :: bs)).run) w answer w' := by
  have steady : Engine.Steady fun g : Engine σ => g.evaluate root b.init cap :=
    fun below => below.evaluate root b.init cap
  have steadyRest : Engine.Steady fun g : Engine σ => (g.declareRest root cap name bs v).run :=
    fun below => Attempt.below_bind (.refl _) fun _ => below.declare root cap bs
  obtain ⟨g, ⟨fuel, rfl⟩, evaluated, declared⟩ := evaluates.both steady steadyRest rest
  refine ⟨fuel, (Engine.declare_fresh named fresh).trans ?_⟩
  exact Attempt.run_bind.mpr (Or.inl ⟨v, w₁, evaluated, declared⟩)

theorem answers_declareRest_bound {v : Value} {answer : Except Error Value}
    (bound : w.bind root name v = (.ok (), w₁))
    (rest : host.Answers (fun g => (g.declare root cap bs).run) w₁ answer w') :
    host.Answers (fun g => (g.declareRest root cap name bs v).run) w answer w' :=
  rest.imp fun _ _ run => (Engine.declareRest_bound bound).trans run

end Declarations

/-! ### Operations -/

variable {c : Callable} {args : List Value} {answer : Except Error Outcome}

theorem invokes_of_reply {reply : Except Error Reply}
    (replied : ∀ g : Engine σ, g.host = host → (g.reply c args).run w = some (reply, w₁))
    (handled : host.Answers (fun g => g.handle g.fuel reply) w₁ answer w') :
    host.Answers (fun g => (g.invoke c args).run) w answer w' :=
  (answers_loop (fun n g => (g.invokeWithin n c args).run) (fun _ g => (g.reply c args).run)
    (fun reply n g => g.handle n reply) (fun less below => below.invokeWithin less c args)
    (fun _ below => below.reply c args) (fun reply _ _ _ _ less below => below.handle less reply)
    (fun _ => rfl) fun n g => g.invokeWithin_succ n c args).mpr
    ⟨reply, w₁, ⟨0, replied _ (Engine.withFuel_host host 0)⟩, handled⟩

theorem invokes_of_native {n : Native} {reply : Except Error Reply}
    (replied : host.nativeReply n args w = (reply, w₁))
    (handled : host.Answers (fun g => g.handle g.fuel reply) w₁ answer w') :
    host.Answers (fun g => (g.invoke (.native n) args).run) w answer w' :=
  invokes_of_reply (fun _ same => by rw [Engine.reply_native, same, replied]) handled

theorem performs_branch {t e' : Value} {s : Stream}
    (compiled : host.Answers (·.compile env (if args.head?.any Value.isTrue then t else e')) w s w') :
    host.Performs (.branch env t e') args w (.ok (.stream s)) w' := by
  refine compiled.imp fun g _ run => ?_
  show (do return .stream (← g.compile env _) : Attempt σ Outcome).run w = _
  rw [Attempt.run_lift_map]
  exact Effect.map_eq_some.mpr ⟨_, run, rfl⟩

theorem performs_sequel {next : Value} {s : Stream}
    (compiled : host.Answers (·.compile env next) w s w') :
    host.Performs (.sequel env next) args w (.ok (.stream s)) w' := by
  refine compiled.imp fun g _ run => ?_
  show (do return .stream (← g.compile env _) : Attempt σ Outcome).run w = _
  rw [Attempt.run_lift_map]
  exact Effect.map_eq_some.mpr ⟨_, run, rfl⟩

theorem handles_compile {s : Stream} (compiled : host.Answers (·.compile env e) w s w') :
    host.Answers (fun g => g.handle g.fuel (.ok (.answer (.compile env e)))) w (.ok (.stream s)) w' :=
  compiled.imp fun _ _ run =>
    Effect.map_eq_some.mpr ⟨_, run, rfl⟩

/-! ### From the direct evaluator to the engine -/

mutual

theorem Resolves.places {env : Environment} {e : Value} {w w' : World σ}
    {r : Except Fault Resolved} (resolves : host.Resolves env e w r w') :
    host.Places env [e] w (r.map Resolved.frames) w' := by
  match resolves with
  | .nilMarker => exact .of_value (.of_run fun _ _ => rfl)
  | .truthMarker => exact .of_value (.of_run fun _ _ => rfl)
  | .symbol notNil notTruth bound =>
    refine .of_value (.of_run fun g _ => ?_)
    simp only [Engine.compileOne_symbol notNil notTruth, Scopes.lookup, bound]
    rfl
  | .unbound notNil notTruth free =>
    refine .of_fault (.of_run fun g _ => ?_)
    simp only [Engine.compileOne_symbol notNil notTruth, Scopes.lookup, free]
    rfl
  | .empty => exact .of_value (.of_run fun _ _ => rfl)
  | .atom plain => exact .of_value (.of_run fun _ _ => Engine.compileOne_atom plain)
  | .computed operator resolves =>
    exact .of_instead (.of_run fun _ _ => Engine.compileOne_computed operator) resolves.places
  | .noOperator plain unresolved =>
    exact .of_fault (.of_run fun _ _ => Engine.compileOne_noOperator plain unresolved)
  | .expands resolved expansion resolves =>
    refine .of_instead (.of_run fun g same => ?_) resolves.places
    rw [Engine.compileOne_operator resolved, Engine.compileApplication_expander, same, expansion]
    rfl
  | .expandsNot resolved expansion =>
    refine .of_error (.of_run fun g same => ?_)
    rw [Engine.compileOne_operator resolved, Engine.compileApplication_expander, same, expansion]
    rfl
  | .form resolved admitted applies =>
    obtain ⟨answer, answers, renders⟩ := applies.answers
    exact .of_form resolved admitted answers renders
  | .formArity resolved refused =>
    refine .of_fault (.of_run fun g _ => ?_)
    rw [Engine.compileOne_operator resolved, Engine.compileApplication_form]
    exact Effect.map_eq_some.mpr ⟨_, Engine.applyForm_refused refused, rfl⟩
  | .application resolved function all =>
    exact .of_operands resolved function all.places fun ts ok => all.length ok

theorem ResolvesAll.places {env : Environment} {es : List Value} {w w' : World σ}
    {r : Except Fault (List Resolved)} (resolves : host.ResolvesAll env es w r w') :
    host.Places env es.reverse w (r.map Resolved.allFrames) w' := by
  match resolves with
  | .nil => exact .nil
  | .cons all one => exact .of_cons all.places one.places
  | .fails all =>
    rw [List.reverse_cons]
    exact .append_fails all.places

theorem Applies.answers {f : Form} {operands : List Value} {env : Environment} {w w' : World σ}
    {r : Except Fault Resolved} (applies : host.Applies f operands env w r w') :
    ∃ answer, host.Answers (fun g => (g.formAnswer g.compile f operands env).run) w answer w' ∧
      Outcome.Renders answer r := by
  match applies with
  | .quote => exact ⟨_, ⟨0, rfl⟩, rfl⟩
  | .lambda made =>
    refine ⟨.ok (.value _), ⟨0, Engine.formAnswer_lambda.trans ?_⟩, rfl⟩
    rw [made]
    rfl
  | .lambdaFails made =>
    refine ⟨.error _, ⟨0, Engine.formAnswer_lambda.trans ?_⟩, rfl⟩
    rw [made]
    rfl
  | .choice resolves =>
    obtain ⟨s, compiled, renders⟩ := resolves.places.compile
    exact ⟨_, answers_compileBefore compiled fun _ => rfl, renders.choice⟩
  | .fullChoice resolves =>
    obtain ⟨s, compiled, renders⟩ := resolves.places.compile
    exact ⟨_, answers_compileBefore compiled fun _ => rfl, renders.choice⟩
  | .manyBranches => exact ⟨_, ⟨0, rfl⟩, rfl⟩
  | .emptySequence => exact ⟨_, ⟨0, rfl⟩, rfl⟩
  | .sequence resolves =>
    obtain ⟨s, compiled, renders⟩ := resolves.places.compile
    exact ⟨_, answers_compileBefore compiled fun _ => rfl, renders.sequence⟩
  | .noBindings read => exact ⟨.error _, ⟨0, Engine.formAnswer_noBindings read⟩, rfl⟩
  | .exports read declares => exact answers_exports read (declares.answers _)
  | .hostFails answer =>
    exact ⟨.error _, ⟨0, Engine.formAnswer_hostFails answer⟩, rfl⟩
  | .hostValue answer =>
    exact ⟨.ok (.value _), ⟨0, Engine.formAnswer_hostValue answer⟩, rfl⟩
  | .hostStream answer renders =>
    exact ⟨.ok (.stream _), ⟨0, Engine.formAnswer_hostStream answer⟩, renders⟩
  | .hostCompile answer resolves =>
    obtain ⟨s, compiled, renders⟩ := resolves.places.compile
    refine ⟨.ok (.stream s), compiled.imp fun g same run => ?_, renders⟩
    rw [← same] at answer
    rw [Engine.formAnswer_hostCompile answer]
    exact Effect.map_eq_some.mpr ⟨_, run, rfl⟩

theorem Declares.answers {root : Environment} {bs : List Binding} {w w' : World σ}
    {r : Except Fault Unit} (declares : host.Declares root bs w r w') (cap : BacktraceCap) :
    ∃ answer, host.Answers (fun g => (g.declare root cap bs).run) w answer w' ∧
      answer.mapError Error.fault = r.map fun _ => .truth := by
  match declares with
  | .nil => exact ⟨_, ⟨0, rfl⟩, rfl⟩
  | .noName named => exact ⟨.error _, ⟨0, Engine.declare_noName named⟩, rfl⟩
  | .defined named bound => exact ⟨.error _, ⟨0, Engine.declare_defined named bound⟩, rfl⟩
  | .fails named fresh direct =>
    obtain ⟨e | v, evaluates, same⟩ := evaluates_of_compiles cap direct.compiles
    · exact ⟨_, answers_declare_fails named fresh evaluates, same⟩
    · cases same
  | .bindsNot named fresh direct refused =>
    obtain ⟨e | v, evaluates, same⟩ := evaluates_of_compiles cap direct.compiles
    · cases same
    · cases same
      exact ⟨.error _, answers_declare_rest named fresh evaluates
        ⟨0, Engine.declareRest_refused refused⟩, rfl⟩
  | .cons named fresh direct bound declares =>
    obtain ⟨answer, rest, ends⟩ := declares.answers cap
    obtain ⟨e | v, evaluates, same⟩ := evaluates_of_compiles cap direct.compiles
    · cases same
    · cases same
      exact ⟨answer, answers_declare_rest named fresh evaluates
        (answers_declareRest_bound bound rest), ends⟩

theorem Evaluates.delivers {t : Resolved} {w w' : World σ} {r : Except Fault Value}
    (evaluates : host.Evaluates t w r w') (m : Machine) :
    host.Delivers (m.before t.frames).settle w m (r.map ([·])) w' := by
  match evaluates with
  | .value => exact .value
  | .application all operates =>
    obtain ⟨answer, w₂, performs, delivers⟩ := operates.performs
    rw [Resolved.frames, Machine.before_append]
    refine .bind (all.delivers _) fun trace => ?_
    rw [← all.length rfl]
    exact .call performs delivers
  | .operandFails all =>
    rw [Resolved.frames, Machine.before_append]
    exact all.delivers _

theorem EvaluatesAll.delivers {ts : List Resolved} {w w' : World σ}
    {r : Except Fault (List Value)} (evaluates : host.EvaluatesAll ts w r w') (m : Machine) :
    host.Delivers (m.before (Resolved.allFrames ts)).settle w m r w' := by
  match evaluates with
  | .nil => exact ⟨0, [], m.trace, .refl⟩
  | .cons one all =>
    rw [Resolved.allFrames, Machine.before_append]
    exact .bind (one.delivers _) fun trace => .push (all.delivers ⟨_, _ :: _, trace, _⟩)
  | .fails one =>
    rw [Resolved.allFrames, Machine.before_append]
    exact one.delivers _

theorem Operates.performs {operation : Operation} {args : List Value} {w w' : World σ}
    {r : Except Fault Value} (operates : host.Operates operation args w r w') :
    ∃ answer w₁, host.Performs operation args w answer w₁ ∧
      ∀ m, host.Delivers (Machine.answered m answer) w₁ m (r.map ([·])) w' := by
  match operates with
  | .callable calls => exact calls.invokes
  | .consequent chosen direct =>
    obtain ⟨s, w₁, compiled, delivers⟩ := direct.compiles
    exact ⟨_, w₁, performs_branch (by rwa [chosen]), delivers⟩
  | .alternative chosen direct =>
    obtain ⟨s, w₁, compiled, delivers⟩ := direct.compiles
    exact ⟨_, w₁, performs_branch (by rwa [chosen]), delivers⟩
  | .sequel direct =>
    obtain ⟨s, w₁, compiled, delivers⟩ := direct.compiles
    exact ⟨_, w₁, performs_sequel compiled, delivers⟩

theorem Calls.invokes {c : Callable} {args : List Value} {w w' : World σ}
    {r : Except Fault Value} (calls : host.Calls c args w r w') :
    ∃ answer w₁, host.Answers (fun g => (g.invoke c args).run) w answer w₁ ∧
      ∀ m, host.Delivers (Machine.answered m answer) w₁ m (r.map ([·])) w' := by
  match calls with
  | .closure opened direct =>
    obtain ⟨s, w₁, compiled, delivers⟩ := direct.compiles
    exact ⟨_, w₁, invokes_of_reply (fun _ _ => Engine.reply_closure opened)
      (handles_compile compiled), delivers⟩
  | .form =>
    exact ⟨_, w, invokes_of_reply (fun _ _ => rfl) (answers_pure.mpr ⟨rfl, rfl⟩),
      fun _ => ⟨_, _, _, .refl, rfl⟩⟩
  | .expander =>
    exact ⟨_, w, invokes_of_reply (fun _ _ => rfl) (answers_pure.mpr ⟨rfl, rfl⟩),
      fun _ => ⟨_, _, _, .refl, rfl⟩⟩
  | .nativeFails reply =>
    exact ⟨_, w', invokes_of_native reply (answers_pure.mpr ⟨rfl, rfl⟩),
      fun _ => ⟨_, _, _, .refl, rfl⟩⟩
  | .value reply =>
    exact ⟨_, w', invokes_of_native reply (answers_pure.mpr ⟨rfl, rfl⟩),
      fun m => ⟨_, _, m.trace, .refl⟩⟩
  | .streamFails reply renders =>
    exact ⟨_, w', invokes_of_native reply (answers_pure.mpr ⟨rfl, rfl⟩), .of_failed renders⟩
  | .stream reply renders evaluates =>
    exact ⟨_, _, invokes_of_native reply (answers_pure.mpr ⟨rfl, rfl⟩),
      fun m => .of_tree renders (evaluates.delivers m)⟩
  | .compile reply direct =>
    obtain ⟨s, w₁, compiled, delivers⟩ := direct.compiles
    exact ⟨_, w₁, invokes_of_native reply (handles_compile compiled), delivers⟩
  | .invoke reply calls =>
    obtain ⟨answer, w₁, invokes, delivers⟩ := calls.invokes
    exact ⟨answer, w₁, invokes_of_native reply invokes, delivers⟩

theorem Direct.compiles {env : Environment} {e : Value} {w w' : World σ}
    {r : Except Fault Value} (direct : host.Direct env e w r w') :
    ∃ s w₁, host.Answers (·.compile env e) w s w₁ ∧
      ∀ m, host.Delivers (Machine.answered m (.ok (.stream s))) w₁ m (r.map ([·])) w' := by
  match direct with
  | .fails resolves =>
    obtain ⟨s, compiled, renders⟩ := resolves.places.compile
    exact ⟨s, w', compiled, .of_failed renders⟩
  | .evaluates resolves evaluated =>
    obtain ⟨s, compiled, renders⟩ := resolves.places.compile
    exact ⟨s, _, compiled, fun m => .of_tree renders (evaluated.delivers m)⟩

end

end Host

end CooperativeLisp

import CooperativeLisp.Proofs.Faithful
import CooperativeLisp.Proofs.Orderly
import CooperativeLisp.Proofs.Realized

/-!
The engine finds nothing but what the direct evaluator finds. A run of a tree's frames on top of a
machine either fails as the tree does or comes back to the machine with fewer rounds left, so by
induction on the rounds every engine is faithful, whatever its fuel.
-/

namespace CooperativeLisp

variable {σ : Type}

namespace Host

variable {host : Host σ} {env : Environment} {e : Value} {w w' w₁ : World σ}

/-- The answer of an invocation leads to nothing but what `P` allows: a stream has the results of
its tree. -/
def Explains (host : Host σ) (answer : Except Error Outcome) (w : World σ)
    (P : Except Fault Value → World σ → Prop) : Prop :=
  match answer with
  | .error e => P (.error e.fault) w
  | .ok (.value v) => P (.ok v) w
  | .ok (.stream s) => ∃ r, s.Renders r ∧ match r with
    | .error f => P (.error f) w
    | .ok t => ∀ r w', host.Evaluates t w r w' → P r w'

theorem Explains.imp {answer : Except Error Outcome} {P Q : Except Fault Value → World σ → Prop}
    (explains : host.Explains answer w P) (weaker : ∀ {r w'}, P r w' → Q r w') :
    host.Explains answer w Q := by
  obtain e | v | s := answer
  · exact weaker explains
  · exact weaker explains
  · obtain ⟨r, renders, allowed⟩ := explains
    refine ⟨r, renders, ?_⟩
    cases r with
    | error f => exact weaker allowed
    | ok t => exact fun r w' evaluates => weaker (allowed r w' evaluates)

theorem Resolves.explains {s : Stream} {r : Except Fault Resolved}
    (resolves : host.Resolves env e w r w') (renders : s.Renders r) :
    host.Explains (.ok (.stream s)) w' (host.Direct env e w) := by
  refine ⟨r, renders, ?_⟩
  cases r with
  | error f => exact .fails resolves
  | ok t => exact fun _ _ evaluates => .evaluates resolves evaluates

end Host

namespace Engine.Faithful

variable {host : Host σ} {g : Engine σ} {w w' : World σ} {answer : Except Error Outcome}

theorem compiled (faithful : g.Faithful host) (sound : host.Sound) {env : Environment} {e : Value}
    {s : Stream} (run : g.compile env e w = some (s, w')) :
    host.Explains (.ok (.stream s)) w' (host.Direct env e w) := by
  obtain ⟨r, resolves, renders⟩ := faithful.compile sound run
  exact resolves.explains renders

/-- A stream compiled in the place of an operation explains what the operation answers. -/
theorem splices (faithful : g.Faithful host) (sound : host.Sound) {env : Environment} {e : Value}
    (run : (g.compile env e >>= fun s => pure (.ok (.stream s))) w = some (answer, w')) :
    host.Explains answer w' (host.Direct env e w) := by
  obtain ⟨s, compiled, rfl⟩ := Effect.map_eq_some.mp run
  exact faithful.compiled sound compiled

theorem native (faithful : g.Faithful host) (sound : host.Sound) {n : Native}
    {args : List Value} {rounds : Nat} {reply : Except Error Reply} {w₁ : World σ}
    (replied : host.nativeReply n args w = (reply, w₁))
    (later : ∀ {c args answer w w'}, (g.invokeWithin rounds c args).run w = some (answer, w') →
      host.Explains answer w' (host.Calls c args w))
    (run : g.handle rounds reply w₁ = some (answer, w')) :
    host.Explains answer w' (host.Calls (.native n) args w) := by
  obtain e | ⟨v | s | ⟨env, e⟩⟩ | ⟨c, args'⟩ := reply
  · obtain ⟨rfl, rfl⟩ := Effect.pure_eq_some.mp run
    exact .nativeFails replied
  · obtain ⟨rfl, rfl⟩ := Effect.pure_eq_some.mp run
    exact .value replied
  · obtain ⟨rfl, rfl⟩ := Effect.pure_eq_some.mp run
    cases n with
    | primitive p =>
      have orderly : Orderly (host.nativeReply (.primitive p) args w).1 := p.run_orderly args
      rw [replied] at orderly
      exact orderly.elim
    | host name =>
      obtain ⟨r, renders⟩ := Stream.sound_iff_renders.mp (sound.native replied)
      refine ⟨r, renders, ?_⟩
      cases r with
      | error f => exact .streamFails replied renders
      | ok t => exact fun _ _ evaluates => .stream replied renders evaluates
  · exact (faithful.splices sound run).imp fun direct => .compile replied direct
  · exact (later run).imp fun calls => .invoke replied calls

theorem invokeWithin (faithful : g.Faithful host) (sound : host.Sound) {rounds : Nat}
    {c : Callable} {args : List Value}
    (run : (g.invokeWithin rounds c args).run w = some (answer, w')) :
    host.Explains answer w' (host.Calls c args w) := by
  induction rounds generalizing c args w w' answer with
  | zero => cases run
  | succ rounds ih =>
    rw [invokeWithin_succ] at run
    obtain ⟨reply, w₁, replied, handled⟩ := Effect.bind_eq_some.mp run
    cases c with
    | native n =>
      rw [reply_native, faithful.same] at replied
      exact faithful.native sound (Option.some.inj replied) ih handled
    | closure c =>
      cases opened : w.scopes.openChild c.env (Table.ofEntries (c.arguments args)) with
      | mk scope scopes =>
        cases (reply_closure opened).symm.trans replied
        exact (faithful.splices sound handled).imp fun direct => .closure opened direct
    | form f =>
      obtain ⟨rfl, rfl⟩ := Effect.pure_eq_some.mp replied
      obtain ⟨rfl, rfl⟩ := Effect.pure_eq_some.mp handled
      exact .form
    | expander r =>
      obtain ⟨rfl, rfl⟩ := Effect.pure_eq_some.mp replied
      obtain ⟨rfl, rfl⟩ := Effect.pure_eq_some.mp handled
      exact .expander

theorem perform (faithful : g.Faithful host) (sound : host.Sound) {operation : Operation}
    {args : List Value} (run : (g.perform operation args).run w = some (answer, w')) :
    host.Explains answer w' (host.Operates operation args w) := by
  cases operation with
  | callable c => exact (faithful.invokeWithin sound run).imp fun calls => .callable calls
  | branch env t e =>
    have run := (congrFun Attempt.run_lift_map w).symm.trans run
    cases chosen : args.head?.any Value.isTrue with
    | true =>
      rw [chosen] at run
      exact (faithful.splices sound run).imp fun direct => .consequent chosen direct
    | false =>
      rw [chosen] at run
      exact (faithful.splices sound run).imp fun direct => .alternative chosen direct
  | sequel env next =>
    have run := (congrFun Attempt.run_lift_map w).symm.trans run
    exact (faithful.splices sound run).imp fun direct => .sequel direct

end Engine.Faithful

/-! ### Runs -/

namespace Engine

variable {g : Engine σ} {rounds left : Nat} {m : Machine} {w w' w₁ : World σ}
variable {result : Except Error Value}

/-- Values have come to a machine and the run goes on from there, or the run has failed. -/
def Resumes (g : Engine σ) (rounds : Nat) (m : Machine) (r : Except Fault (List Value))
    (w : World σ) (result : Except Error Value) (w' : World σ) : Prop :=
  match r with
  | .ok vs => ∃ left trace, left ≤ rounds ∧ g.conclude left
    (Machine.settle ⟨m.frames, vs.reverse ++ m.stack, trace, m.cap⟩) w = some (result, w')
  | .error f => w' = w ∧ result.mapError Error.fault = .error f

namespace Resumes

variable {r : Except Fault (List Value)}

theorem more (resumes : g.Resumes left m r w result w') (less : left ≤ rounds) :
    g.Resumes rounds m r w result w' := by
  cases r with
  | ok vs =>
    obtain ⟨rest, trace, within, run⟩ := resumes
    exact ⟨rest, trace, Nat.le_trans within less, run⟩
  | error f => exact resumes

theorem push {v : Value} {trace : List Value}
    (resumes : g.Resumes rounds ⟨m.frames, v :: m.stack, trace, m.cap⟩ r w result w') :
    g.Resumes rounds m (r.map (v :: ·)) w result w' := by
  cases r with
  | ok vs =>
    obtain ⟨rest, trace, within, run⟩ := resumes
    refine ⟨rest, trace, within, ?_⟩
    rwa [List.reverse_cons, List.append_assoc, List.singleton_append]
  | error f => exact resumes

end Resumes

theorem conclude_error {e : Error} {rest : List Frame}
    (run : g.conclude rounds (m.before (.error e :: rest)).settle w = some (result, w')) :
    w' = w ∧ result.mapError Error.fault = .error e.fault := by
  obtain ⟨left, a, w₁, -, step, ends⟩ := conclude_pending run
  obtain ⟨rfl, rfl⟩ := Effect.pure_eq_some.mp step
  obtain ⟨rfl, rfl⟩ := Effect.pure_eq_some.mp ends
  exact ⟨rfl, rfl⟩

/-- Every run of a tree's frames on top of a machine is an evaluation of the tree. -/
def RunsTree (host : Host σ) (g : Engine σ) (rounds : Nat) (t : Resolved) : Prop :=
  ∀ {m w result w'}, g.conclude rounds (m.before t.frames).settle w = some (result, w') →
    ∃ r w₁, host.Evaluates t w r w₁ ∧ g.Resumes rounds m (r.map ([·])) w₁ result w'

variable {host : Host σ}

/-- What explains the answer of an invocation explains the run that goes on from it. -/
theorem resumes_answered {answer : Except Error Outcome} {P : Except Fault Value → World σ → Prop}
    (runs : ∀ t, g.RunsTree host rounds t) (explains : host.Explains answer w P)
    (run : g.conclude rounds (m.answered answer) w = some (result, w')) :
    ∃ r w₁, P r w₁ ∧ g.Resumes rounds m (r.map ([·])) w₁ result w' := by
  obtain e | v | s := answer
  · obtain ⟨rfl, rfl⟩ := Effect.pure_eq_some.mp run
    exact ⟨_, _, explains, rfl, rfl⟩
  · exact ⟨_, _, explains, rounds, m.trace, Nat.le_refl _, run⟩
  · obtain ⟨r, renders, allowed⟩ := explains
    have run : g.conclude rounds (m.before s.frames).settle w = some (result, w') := run
    cases r with
    | error f =>
      obtain ⟨-, e, rest, frames, rfl⟩ := renders
      rw [frames] at run
      exact ⟨_, _, allowed, conclude_error run⟩
    | ok t =>
      rw [renders.2] at run
      obtain ⟨r, w₁, evaluates, resumes⟩ := runs t run
      exact ⟨r, w₁, allowed r w₁ evaluates, resumes⟩

mutual

theorem runsTree_of_smaller (faithful : g.Faithful host) (sound : host.Sound)
    (smaller : ∀ left < rounds, ∀ t, g.RunsTree host left t) (t : Resolved) {left : Nat}
    (within : left ≤ rounds) : g.RunsTree host left t := by
  intro m w result w' run
  match t with
  | .value v =>
    obtain ⟨rest, a, w₁, less, step, later⟩ := conclude_pending run
    obtain ⟨rfl, rfl⟩ := Effect.pure_eq_some.mp step
    exact ⟨.ok v, _, .value, rest, m.trace, Nat.le_of_lt less, later⟩
  | .application operation operands origin =>
    rw [Resolved.frames, Machine.before_append] at run
    obtain ⟨r, w₁, all, resumes⟩ := runsTrees_of_smaller faithful sound smaller operands within run
    cases r with
    | error f => exact ⟨_, w₁, .operandFails all, resumes⟩
    | ok args =>
      obtain ⟨rest, trace, less, atCall⟩ := resumes
      rw [← all.length rfl] at atCall
      -- the call frame takes a round of its own, so what it splices runs with fewer
      obtain ⟨rest', a, w₂, less', step, later⟩ := conclude_pending atCall
      have taken := (congrFun step_args w₁).symm.trans step
      obtain ⟨answer, performed, rfl⟩ := Effect.map_eq_some.mp taken
      have before : rest' < rounds := by omega
      obtain ⟨r, w₄, operates, resumes⟩ :=
        resumes_answered (smaller rest' before) (faithful.perform sound performed) later
      refine ⟨r, w₄, .application all operates, ?_⟩
      have here : g.Resumes rest' m (r.map ([·])) w₄ result w' := by
        cases r <;> exact resumes
      exact here.more (by omega)

theorem runsTrees_of_smaller (faithful : g.Faithful host) (sound : host.Sound)
    (smaller : ∀ left < rounds, ∀ t, g.RunsTree host left t) (ts : List Resolved) {left : Nat}
    (within : left ≤ rounds) {m : Machine} {w w' : World σ} {result : Except Error Value}
    (run : g.conclude left (m.before (Resolved.allFrames ts)).settle w = some (result, w')) :
    ∃ r w₁, host.EvaluatesAll ts w r w₁ ∧ g.Resumes left m r w₁ result w' := by
  match ts with
  | [] => exact ⟨.ok [], w, .nil, left, m.trace, Nat.le_refl _, run⟩
  | t :: ts =>
    rw [Resolved.allFrames, Machine.before_append] at run
    obtain ⟨r, w₁, one, resumes⟩ := runsTree_of_smaller faithful sound smaller t within run
    cases r with
    | error f => exact ⟨_, w₁, .fails one, resumes⟩
    | ok v =>
      obtain ⟨rest, trace, less, later⟩ := resumes
      obtain ⟨r, w₂, all, resumes⟩ := runsTrees_of_smaller faithful sound smaller ts
        (Nat.le_trans less within) (m := ⟨m.frames, v :: m.stack, trace, m.cap⟩) later
      exact ⟨_, w₂, .cons one all, resumes.push.more less⟩

end

theorem Faithful.runsTree (faithful : g.Faithful host) (sound : host.Sound) (rounds : Nat)
    (t : Resolved) : g.RunsTree host rounds t := by
  induction rounds using Nat.strongRecOn generalizing t with
  | ind rounds smaller =>
    exact runsTree_of_smaller faithful sound smaller t (Nat.le_refl rounds)

/-- An evaluation on a faithful engine is one of the direct evaluator. -/
theorem Faithful.evaluateOnce (faithful : g.Faithful host) (sound : host.Sound)
    {env : Environment} {e : Value} {cap : BacktraceCap}
    (run : g.evaluateOnce env e cap w = some (result, w')) :
    host.Direct env e w (result.mapError Error.fault) w' := by
  obtain ⟨s, w₁, compiled, run⟩ := Effect.bind_eq_some.mp run
  obtain ⟨r, resolves, renders⟩ := faithful.compile sound compiled
  have some : (Machine.start s cap).frames ≠ [] := renders.frames_ne_nil
  have run : g.conclude g.fuel (.pending (.start s cap)) w₁ = .some (result, w') := run
  rw [← Machine.settle_pending some, ← Machine.answered_start] at run
  obtain ⟨r, w₂, direct, resumes⟩ := resumes_answered (faithful.runsTree sound g.fuel)
    (resolves.explains renders) run
  cases r with
  | ok v =>
    obtain ⟨rest, trace, -, ends⟩ := resumes
    obtain ⟨rfl, rfl⟩ := Effect.pure_eq_some.mp ends
    exact direct
  | error f =>
    obtain ⟨rfl, same⟩ := resumes
    rwa [same]

end Engine

namespace Host

variable {host : Host σ}

/-- Whatever its fuel, an engine evaluates nested expressions as the direct evaluator does. -/
theorem Sound.faithful (sound : host.Sound) (n : Nat) : (Engine.withFuel host n).Faithful host := by
  induction n with
  | zero => exact ⟨rfl, fun run => nomatch run⟩
  | succ n ih => exact ⟨rfl, fun run => ih.evaluateOnce sound run⟩

theorem Sound.direct (sound : host.Sound) {env : Environment} {e : Value} {cap : BacktraceCap}
    {w w' : World σ} {r : Except Error Value}
    (answers : host.Answers (·.evaluateOnce env e cap) w r w') :
    host.Direct env e w (r.mapError Error.fault) w' := by
  obtain ⟨fuel, run⟩ := answers
  exact (sound.faithful fuel).evaluateOnce sound run

theorem Direct.answers {env : Environment} {e : Value} {w w' : World σ} {r : Except Fault Value}
    (direct : host.Direct env e w r w') (cap : BacktraceCap) :
    ∃ r', host.Answers (·.evaluateOnce env e cap) w r' w' ∧ r'.mapError Error.fault = r := by
  obtain ⟨s, w₁, compiled, delivers⟩ := direct.compiles
  exact Delivers.evaluateOnce cap compiled delivers

/-- Compiling an expression and running its stream agrees with the direct evaluator: they end with
the same value or with the same fault and leave the same world, and one ends if the other does. -/
theorem evaluateOnce_eq_direct (sound : host.Sound) (env : Environment) (e : Value)
    (cap : BacktraceCap) (w : World σ) (r : Except Fault Value) (w' : World σ) :
    (∃ r', host.Answers (·.evaluateOnce env e cap) w r' w' ∧ r'.mapError Error.fault = r) ↔
      host.Direct env e w r w' := by
  constructor
  · rintro ⟨r', answers, rfl⟩
    exact sound.direct answers
  · exact fun direct => direct.answers cap

/-- A host whose natives leave making a list of their arguments to the run. -/
def listing : Host Unit where
  native _ args := return .answer (.stream ⟨(Resolved.application
    (.callable (.native (.primitive .list))) (args.map .value) .nil).frames, false⟩)
  form name _ _ := throw (.ofFault (.illegalCall name))
  expander name _ _ := throw (.ofFault (.illegalCall name))

theorem listing_sound : listing.Sound := by
  refine ⟨fun {_ args _ _ _} replied => ?_, nofun⟩
  cases replied
  exact Or.inl ⟨rfl, Resolved.balanced _⟩

theorem evaluateOnce_eq_direct_listing :
    listing.Sound ∧ listing.Direct ⟨0, []⟩
      (Library.apply (.form .conditional)
        [.truth, Library.apply (.callable (.native (.host "list-later"))) [.nil, .truth]])
      ⟨{}, 0, ()⟩ (.ok (.list [.nil, .truth])) ⟨{}, 0, ()⟩ := by
  refine ⟨listing_sound, ?_⟩
  exact (evaluateOnce_eq_direct listing_sound _ _ 10 _ _ _).mp ⟨_, ⟨9, rfl⟩, rfl⟩

end Host

end CooperativeLisp

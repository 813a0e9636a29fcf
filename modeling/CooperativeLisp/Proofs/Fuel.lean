import CooperativeLisp.Interpreter

/-!
Fuel bounds how long an engine works, and nothing else: more fuel keeps every answer. So what a
host's engines answer with enough fuel is a single answer, and a computation that never answers is
one that does not end.
-/

namespace CooperativeLisp

variable {σ α β : Type}

namespace Effect

theorem bind_eq_some {x : Effect σ α} {f : α → Effect σ β} {w w' : World σ} {b : β} :
    (x >>= f) w = some (b, w') ↔ ∃ a w₁, x w = some (a, w₁) ∧ f a w₁ = some (b, w') := by
  show (x w).bind (fun answer => f answer.1 answer.2) = some (b, w') ↔ _
  simp only [Option.bind_eq_some_iff, Prod.exists]

theorem pure_eq_some {w w' : World σ} {a b : α} :
    (pure a : Effect σ α) w = some (b, w') ↔ b = a ∧ w' = w := by
  show some (a, w) = some (b, w') ↔ _
  simp only [Option.some.injEq, Prod.mk.injEq, eq_comm]

theorem map_eq_some {x : Effect σ α} {k : α → β} {w w' : World σ} {b : β} :
    (x >>= fun a => pure (k a)) w = some (b, w') ↔ ∃ a, x w = some (a, w') ∧ b = k a := by
  refine bind_eq_some.trans ⟨?_, ?_⟩
  · rintro ⟨a, w₁, atFirst, atRest⟩
    obtain ⟨rfl, rfl⟩ := pure_eq_some.mp atRest
    exact ⟨a, atFirst, rfl⟩
  · rintro ⟨a, atFirst, rfl⟩
    exact ⟨a, w', atFirst, rfl⟩

theorem exhausted_ne_some {w : World σ} {answer : α × World σ} :
    (Effect.exhausted : Effect σ α) w ≠ some answer := by
  intro run
  cases run

/-- Whatever the first computation answers, the second answers as well: only running out of fuel
sets them apart. -/
structure Below (x y : Effect σ α) : Prop where
  keep : ∀ {w answer}, x w = some answer → y w = some answer

namespace Below

theorem refl (x : Effect σ α) : x.Below x := ⟨id⟩

theorem exhausted (x : Effect σ α) : Effect.exhausted.Below x :=
  ⟨fun run => absurd run exhausted_ne_some⟩

theorem bind {x y : Effect σ α} {f g : α → Effect σ β} (first : x.Below y)
    (rest : ∀ a, (f a).Below (g a)) : (x >>= f).Below (y >>= g) := by
  refine ⟨fun {w answer} run => ?_⟩
  obtain ⟨b, w'⟩ := answer
  obtain ⟨a, w₁, atFirst, atRest⟩ := bind_eq_some.mp run
  exact bind_eq_some.mpr ⟨a, w₁, first.keep atFirst, (rest a).keep atRest⟩

end Below

end Effect

namespace Attempt

theorem run_bind {x : Attempt σ α} {f : α → Attempt σ β} {w w' : World σ} {r : Except Error β} :
    (x >>= f).run w = some (r, w') ↔
      (∃ a w₁, x.run w = some (.ok a, w₁) ∧ (f a).run w₁ = some (r, w')) ∨
        ∃ e, x.run w = some (.error e, w') ∧ r = .error e := by
  refine Effect.bind_eq_some.trans ⟨?_, ?_⟩
  · rintro ⟨a | a, w₁, atFirst, atRest⟩
    · obtain ⟨rfl, rfl⟩ := Effect.pure_eq_some.mp atRest
      exact Or.inr ⟨a, atFirst, rfl⟩
    · exact Or.inl ⟨a, w₁, atFirst, atRest⟩
  · rintro (⟨a, w₁, atFirst, atRest⟩ | ⟨e, atFirst, rfl⟩)
    · exact ⟨.ok a, w₁, atFirst, atRest⟩
    · exact ⟨.error e, w', atFirst, rfl⟩

theorem run_ofExcept {x r : Except Error α} {w : World σ} (same : x = r) :
    (ofExcept x).run w = some (r, w) := by
  rw [same]
  rfl

theorem run_ofHost {action : HostAction σ α} {w : World σ} {answer : Except Error α × World σ}
    (same : action.run.run w = answer) : (ofHost action).run w = some answer := by
  rw [← same]
  rfl

theorem run_bind_ok {x : Attempt σ α} {f : α → Attempt σ β} {w w' : World σ} {a : α}
    (run : x.run w = some (.ok a, w')) : (x >>= f).run w = (f a).run w' := by
  have first : (x >>= f).run w =
      (x.run w).bind fun answer => ExceptT.bindCont f answer.1 answer.2 := rfl
  rw [first, run]
  rfl

theorem run_bind_error {x : Attempt σ α} {f : α → Attempt σ β} {w w' : World σ} {e : Error}
    (run : x.run w = some (.error e, w')) : (x >>= f).run w = some (.error e, w') := by
  have first : (x >>= f).run w =
      (x.run w).bind fun answer => ExceptT.bindCont f answer.1 answer.2 := rfl
  rw [first, run]
  rfl

theorem below_bind {x y : Attempt σ α} {f g : α → Attempt σ β} (first : x.run.Below y.run)
    (rest : ∀ a, (f a).run.Below (g a).run) : (x >>= f).run.Below (y >>= g).run := by
  refine Effect.Below.bind first fun answer => ?_
  cases answer with
  | ok a => exact rest a
  | error e => exact .refl _

theorem run_lift {x : Effect σ α} :
    (liftM x : Attempt σ α).run = x >>= fun a => pure (.ok a) := rfl

theorem run_lift_map {x : Effect σ α} {f : α → β} :
    (do return f (← x) : Attempt σ β).run = x >>= fun a => pure (.ok (f a)) := by
  simp only [ExceptT.run_bind, run_lift, bind_assoc, pure_bind]
  rfl

theorem below_lift {x y : Effect σ α} (below : x.Below y) :
    (liftM x : Attempt σ α).run.Below (liftM y : Attempt σ α).run := by
  rw [run_lift, run_lift]
  exact below.bind fun _ => .refl _

end Attempt

/-- An engine that answers nothing but what the other answers too, with no more fuel. -/
structure Engine.Below (g h : Engine σ) : Prop where
  host : g.host = h.host
  fuel : g.fuel ≤ h.fuel
  evaluate : ∀ env e cap, (g.evaluate env e cap).Below (h.evaluate env e cap)

namespace Engine.Below

variable {g h : Engine σ} {nested nested' : Environment → Value → Effect σ Stream}

theorem declare (below : g.Below h) (root : Environment) (cap : BacktraceCap)
    (bindings : List Binding) :
    (g.declare root cap bindings).run.Below (h.declare root cap bindings).run := by
  induction bindings with
  | nil => exact .refl _
  | cons b more ih =>
    refine Attempt.below_bind (.refl _) fun name => Attempt.below_bind (.refl _) fun scopes => ?_
    split
    · exact .refl _
    · exact Attempt.below_bind (below.evaluate root b.init cap) fun v =>
        Attempt.below_bind (.refl _) fun _ => ih

theorem formAnswer (below : g.Below h) (inner : ∀ env e, (nested env e).Below (nested' env e))
    (f : Form) (operands : List Value) (env : Environment) :
    (g.formAnswer nested f operands env).run.Below (h.formAnswer nested' f operands env).run := by
  have waiting : ∀ {env e} {finish : Stream → Effect σ Stream},
      (nested env e >>= finish).Below (nested' env e >>= finish) := fun {env e _} =>
    (inner env e).bind fun _ => .refl _
  unfold Engine.formAnswer
  split
  case h_4 => exact Attempt.below_bind (Attempt.below_lift waiting) fun _ => .refl _
  case h_5 => exact Attempt.below_bind (Attempt.below_lift waiting) fun _ => .refl _
  case h_8 => exact Attempt.below_bind (Attempt.below_lift waiting) fun _ => .refl _
  case h_9 =>
    exact Attempt.below_bind (.refl _) fun bindings =>
      Attempt.below_bind (below.declare ..) fun _ => .refl _
  case h_10 =>
    rw [below.host]
    refine Attempt.below_bind (.refl _) fun answer => ?_
    cases answer with
    | compile env e => exact Attempt.below_bind (Attempt.below_lift (inner env e)) fun _ => .refl _
    | value v => exact .refl _
    | stream s => exact .refl _
  all_goals exact .refl _

theorem compileApplication (below : g.Below h)
    (inner : ∀ env e, (nested env e).Below (nested' env e)) (env : Environment)
    (operands : List Value) (c : Callable) :
    (g.compileApplication nested env operands c).run.Below
      (h.compileApplication nested' env operands c).run := by
  cases c with
  | expander r =>
    unfold Engine.compileApplication Engine.expand
    rw [below.host]
    exact .refl _
  | form f =>
    refine Attempt.below_bind (Attempt.below_bind (.refl _) fun _ => ?_) fun _ => .refl _
    exact below.formAnswer inner f operands env
  | native n => exact .refl _
  | closure c => exact .refl _

theorem compileOne (below : g.Below h) (inner : ∀ env e, (nested env e).Below (nested' env e))
    (env : Environment) (e : Value) :
    (g.compileOne nested env e).run.Below (h.compileOne nested' env e).run := by
  unfold Engine.compileOne
  split
  case h_4 => exact Attempt.below_bind (.refl _) fun c => below.compileApplication inner env _ c
  all_goals exact .refl _

theorem compileOnto (below : g.Below h) {n k : Nat} (less : n ≤ k) (env : Environment)
    (pending : List Value) (s : Stream) :
    (g.compileOnto n env pending s).Below (h.compileOnto k env pending s) := by
  induction n generalizing k env pending s with
  | zero => exact .exhausted _
  | succ n ih =>
    obtain _ | k := k
    · exact absurd less (Nat.not_succ_le_zero n)
    have shorter := Nat.le_of_succ_le_succ less
    cases pending with
    | nil => exact .refl _
    | cons e pending =>
      refine (below.compileOne (fun env e => ih shorter env [e] .empty) env e).bind fun piece => ?_
      split
      · exact .refl _
      · exact ih shorter ..
      · split
        · exact .refl _
        · exact ih shorter ..
      · exact ih shorter ..
      · exact ih shorter ..

theorem compile (below : g.Below h) (env : Environment) (e : Value) :
    (g.compile env e).Below (h.compile env e) :=
  below.compileOnto below.fuel ..

theorem reply (below : g.Below h) (c : Callable) (args : List Value) :
    (g.reply c args).run.Below (h.reply c args).run := by
  unfold Engine.reply
  rw [below.host]
  exact .refl _

theorem invokeWithin (below : g.Below h) {n k : Nat} (less : n ≤ k) (c : Callable)
    (args : List Value) :
    (g.invokeWithin n c args).run.Below (h.invokeWithin k c args).run := by
  induction n generalizing k c args with
  | zero => exact .exhausted _
  | succ n ih =>
    obtain _ | k := k
    · exact absurd less (Nat.not_succ_le_zero n)
    have shorter := Nat.le_of_succ_le_succ less
    refine Attempt.below_bind (below.reply c args) fun answer => ?_
    split
    · exact .refl _
    · exact .refl _
    · exact Attempt.below_bind (Attempt.below_lift (below.compile ..)) fun _ => .refl _
    · exact ih shorter ..

theorem perform (below : g.Below h) (operation : Operation) (args : List Value) :
    (g.perform operation args).run.Below (h.perform operation args).run := by
  cases operation with
  | callable c => exact below.invokeWithin below.fuel ..
  | branch env consequent alternative =>
    exact Attempt.below_bind (Attempt.below_lift (below.compile ..)) fun _ => .refl _
  | sequel env next =>
    exact Attempt.below_bind (Attempt.below_lift (below.compile ..)) fun _ => .refl _

theorem step (below : g.Below h) (m : Machine) : (g.step m).Below (h.step m) := by
  unfold Engine.step
  split
  case h_4 =>
    dsimp only
    split
    · exact .refl _
    · exact (below.perform ..).bind fun _ => .refl _
  all_goals exact .refl _

theorem finishWithin (below : g.Below h) {n k : Nat} (less : n ≤ k) (m : Machine) :
    (g.finishWithin n m).Below (h.finishWithin k m) := by
  induction n generalizing k m with
  | zero => exact .exhausted _
  | succ n ih =>
    obtain _ | k := k
    · exact absurd less (Nat.not_succ_le_zero n)
    have shorter := Nat.le_of_succ_le_succ less
    refine (below.step m).bind fun advance => ?_
    cases advance with
    | pending m => exact ih shorter m
    | done result => exact .refl _

theorem execute (below : g.Below h) (s : Stream) (cap : BacktraceCap) :
    (g.execute s cap).Below (h.execute s cap) :=
  below.finishWithin below.fuel _

theorem evaluateOnce (below : g.Below h) (env : Environment) (e : Value) (cap : BacktraceCap) :
    (g.evaluateOnce env e cap).Below (h.evaluateOnce env e cap) :=
  (below.compile env e).bind fun s => below.execute s cap

theorem withFuel (host : Host σ) {n k : Nat} (less : n ≤ k) :
    (Engine.withFuel host n).Below (Engine.withFuel host k) := by
  induction n generalizing k with
  | zero =>
    cases k with
    | zero => exact ⟨rfl, Nat.le_refl _, fun _ _ _ => .refl _⟩
    | succ k => exact ⟨rfl, Nat.zero_le _, fun _ _ _ => .exhausted _⟩
  | succ n ih =>
    obtain _ | k := k
    · exact absurd less (Nat.not_succ_le_zero n)
    have shorter := Nat.le_of_succ_le_succ less
    exact ⟨rfl, less, fun env e cap => (ih shorter).evaluateOnce env e cap⟩

end Engine.Below

@[simp]
theorem Engine.withFuel_fuel (host : Host σ) (n : Nat) : (Engine.withFuel host n).fuel = n := by
  cases n <;> rfl

@[simp]
theorem Engine.withFuel_host (host : Host σ) (n : Nat) : (Engine.withFuel host n).host = host := by
  cases n <;> rfl

/-- More fuel keeps what the computation answers. -/
def Engine.Steady (f : Engine σ → Effect σ α) : Prop :=
  ∀ {g h : Engine σ}, g.Below h → (f g).Below (f h)

/-- More fuel and more rounds keep what the loop answers. -/
def Engine.SteadyLoop (f : Nat → Engine σ → Effect σ α) : Prop :=
  ∀ {n k : Nat} {g h : Engine σ}, n ≤ k → g.Below h → (f n g).Below (f k h)

namespace Host

variable {host : Host σ} {w w' w₁ w₂ : World σ} {a b : α}

/-- With enough fuel, an engine of the host answers `a` and leaves the world `w'`. -/
def Answers (host : Host σ) (f : Engine σ → Effect σ α) (w : World σ) (a : α) (w' : World σ) :
    Prop :=
  ∃ fuel, f (.withFuel host fuel) w = some (a, w')

theorem Answers.unique {f : Engine σ → Effect σ α} (steady : Engine.Steady f)
    (first : host.Answers f w a w₁) (second : host.Answers f w b w₂) : a = b ∧ w₁ = w₂ := by
  obtain ⟨n, first⟩ := first
  obtain ⟨k, second⟩ := second
  have first := (steady (.withFuel host (Nat.le_max_left n k))).keep first
  have second := (steady (.withFuel host (Nat.le_max_right n k))).keep second
  simpa only [Option.some.injEq, Prod.mk.injEq] using first.symm.trans second

/-- An answer can be read off every engine of the host that gives another. -/
theorem Answers.imp {f : Engine σ → Effect σ α} {k : Engine σ → Effect σ β} {b : β}
    (answers : host.Answers f w a w')
    (reads : ∀ g : Engine σ, g.host = host → f g w = some (a, w') → k g w₁ = some (b, w₂)) :
    host.Answers k w₁ b w₂ := by
  obtain ⟨fuel, run⟩ := answers
  exact ⟨fuel, reads _ (Engine.withFuel_host host fuel) run⟩

theorem answers_pure : host.Answers (fun _ => pure a) w b w' ↔ b = a ∧ w' = w :=
  ⟨fun ⟨_, run⟩ => Effect.pure_eq_some.mp run, fun same => ⟨0, Effect.pure_eq_some.mpr same⟩⟩

/-- Two answers are given with the same fuel, if it is enough for both. -/
theorem Answers.both {f : Engine σ → Effect σ α} {k : Engine σ → Effect σ β} {b : β}
    {w₃ : World σ} (steady : Engine.Steady f) (steadyNext : Engine.Steady k)
    (first : host.Answers f w a w₁) (second : host.Answers k w₂ b w₃) :
    ∃ g : Engine σ, (∃ fuel, g = .withFuel host fuel) ∧ f g w = some (a, w₁) ∧
      k g w₂ = some (b, w₃) := by
  obtain ⟨n, first⟩ := first
  obtain ⟨j, second⟩ := second
  refine ⟨_, ⟨max n j, rfl⟩, ?_, ?_⟩
  · exact (steady (.withFuel host (Nat.le_max_left n j))).keep first
  · exact (steadyNext (.withFuel host (Nat.le_max_right n j))).keep second

theorem answers_bind {f : Engine σ → Effect σ α} {rest : α → Engine σ → Effect σ β} {b : β}
    (steady : Engine.Steady f) (steadyRest : ∀ a, Engine.Steady (rest a)) :
    host.Answers (fun g => f g >>= fun a => rest a g) w b w' ↔
      ∃ a w₁, host.Answers f w a w₁ ∧ host.Answers (rest a) w₁ b w' := by
  constructor
  · rintro ⟨n, run⟩
    obtain ⟨a, w₁, atFirst, atRest⟩ := Effect.bind_eq_some.mp run
    exact ⟨a, w₁, ⟨n, atFirst⟩, n, atRest⟩
  · rintro ⟨a, w₁, first, second⟩
    obtain ⟨g, ⟨fuel, rfl⟩, atFirst, atRest⟩ := first.both steady (steadyRest a) second
    exact ⟨fuel, Effect.bind_eq_some.mpr ⟨a, w₁, atFirst, atRest⟩⟩

theorem answers_map {f : Engine σ → Effect σ α} {k : α → β} {b : β} :
    host.Answers (fun g => f g >>= fun a => pure (k a)) w b w' ↔
      ∃ a, host.Answers f w a w' ∧ b = k a := by
  constructor
  · rintro ⟨n, run⟩
    obtain ⟨a, first, rfl⟩ := Effect.map_eq_some.mp run
    exact ⟨a, ⟨n, first⟩, rfl⟩
  · rintro ⟨a, ⟨n, run⟩, rfl⟩
    exact ⟨n, Effect.map_eq_some.mpr ⟨a, run, rfl⟩⟩

/-- A loop may count its rounds apart from the fuel of its engine. -/
theorem Answers.of_rounds {f : Nat → Engine σ → Effect σ α} {n k : Nat}
    (steady : Engine.SteadyLoop f) (run : f n (.withFuel host k) w = some (a, w')) :
    host.Answers (fun g => f g.fuel g) w a w' := by
  refine ⟨max n k, (steady ?_ (.withFuel host (Nat.le_max_right n k))).keep run⟩
  rw [Engine.withFuel_fuel]
  exact Nat.le_max_left n k

/-- With enough fuel for all its rounds, a loop answers what its first round and the rounds after it
answer. -/
theorem answers_loop (f : Nat → Engine σ → Effect σ α) (first : Nat → Engine σ → Effect σ β)
    (rest : β → Nat → Engine σ → Effect σ α) (steady : Engine.SteadyLoop f)
    (steadyFirst : Engine.SteadyLoop first) (steadyRest : ∀ b, Engine.SteadyLoop (rest b))
    (none : ∀ g, f 0 g = Effect.exhausted)
    (round : ∀ n g, f (n + 1) g = first n g >>= fun b => rest b n g) :
    host.Answers (fun g => f g.fuel g) w a w' ↔
      ∃ b w₁, host.Answers (fun g => first g.fuel g) w b w₁ ∧
        host.Answers (fun g => rest b g.fuel g) w₁ a w' := by
  constructor
  · rintro ⟨fuel, run⟩
    simp only [Engine.withFuel_fuel] at run
    obtain _ | fuel := fuel
    · rw [none] at run
      exact absurd run Effect.exhausted_ne_some
    rw [round] at run
    obtain ⟨b, w₁, atFirst, atRest⟩ := Effect.bind_eq_some.mp run
    exact ⟨b, w₁, .of_rounds steadyFirst atFirst, .of_rounds (steadyRest b) atRest⟩
  · intro answers
    have steadyNow : Engine.Steady fun g : Engine σ => first g.fuel g :=
      fun below => steadyFirst below.fuel below
    have steadyRests : ∀ b, Engine.Steady fun g : Engine σ => rest b g.fuel g :=
      fun b _ _ below => steadyRest b below.fuel below
    obtain ⟨fuel, run⟩ := (answers_bind steadyNow steadyRests).mpr answers
    refine .of_rounds (n := fuel + 1) (k := fuel) steady ?_
    rw [round]
    simpa only [Engine.withFuel_fuel] using run

end Host

end CooperativeLisp

import CooperativeLisp.Proofs.Fuel

/-!
Runs of the machine, counted and with the invocations they make. A run that ends is the only one
from its start, and executing a stream is running it to its end.
-/

namespace CooperativeLisp

variable {σ : Type}

namespace Machine

variable {m m' : Machine}

theorem settle_done (none : m.frames = []) : m.settle = .done m.finish := by
  simp [settle, none]

theorem settle_pending (more : m.frames ≠ []) : m.settle = .pending m := by
  simp [settle, more]

theorem pending_of_settle (pending : m.settle = .pending m') : m' = m ∧ m.frames ≠ [] := by
  by_cases more : m.frames = []
  · cases (settle_done more).symm.trans pending
  · cases (settle_pending more).symm.trans pending
    exact ⟨rfl, more⟩

/-- A run starts as a machine without frames goes on that has been answered with the stream. -/
theorem answered_start (s : Stream) (cap : BacktraceCap) :
    answered ⟨[], [], [], max cap 1⟩ (.ok (.stream s)) = (start s cap).settle := by
  simp only [answered, accept, start, List.append_nil]

end Machine

/-- What a call frame invokes, with the arguments it takes and the expression it came from. -/
structure Invocation where
  operation : Operation
  args : List Value
  origin : Value

/-- What the next frame invokes. A call frame without enough arguments invokes nothing. -/
def Machine.invocation? (m : Machine) : Option Invocation :=
  match m.frames with
  | .call operation argc origin :: _ =>
    if (m.stack.take argc).length < argc then none
    else some ⟨operation, (m.stack.take argc).reverse, origin⟩
  | _ => none

theorem Machine.invocation?_call {operation : Operation} {argc : Nat} {origin : Value}
    {frames : List Frame} {stack trace : List Value} {cap : BacktraceCap}
    (enough : argc ≤ stack.length) :
    Machine.invocation? ⟨.call operation argc origin :: frames, stack, trace, cap⟩ =
      some ⟨operation, (stack.take argc).reverse, origin⟩ := by
  have all : ¬ (stack.take argc).length < argc := by
    rw [List.length_take]
    omega
  simp only [Machine.invocation?, all, if_false]

namespace Engine

variable {g : Engine σ} {operation : Operation} {argc : Nat} {origin : Value}
variable {frames : List Frame} {stack trace : List Value} {cap : BacktraceCap}

theorem step_call (enough : argc ≤ stack.length) :
    g.step ⟨.call operation argc origin :: frames, stack, trace, cap⟩ =
      (g.perform operation (stack.take argc).reverse).run >>= fun answer => pure
        (Machine.answered ⟨frames, stack.drop argc, (origin :: trace).take cap, cap⟩ answer) := by
  have all : ¬ (stack.take argc).length < argc := by
    rw [List.length_take]
    omega
  unfold Engine.step
  simp only [all, if_false]
  rfl

/-- A call frame takes the arguments on top of which it stands. -/
theorem step_args {args : List Value} :
    g.step ⟨.call operation args.length origin :: frames, args.reverse ++ stack, trace, cap⟩ =
      (g.perform operation args).run >>= fun answer => pure
        (Machine.answered ⟨frames, stack, (origin :: trace).take cap, cap⟩ answer) := by
  have taken : ((args.reverse ++ stack).take args.length).reverse = args := by
    rw [List.take_append_of_le_length (by simp), List.take_of_length_le (by simp),
      List.reverse_reverse]
  have left : (args.reverse ++ stack).drop args.length = stack := by
    rw [List.drop_append_of_le_length (by simp), List.drop_of_length_le (by simp),
      List.nil_append]
  rw [step_call (by simp), taken, left]

end Engine

/-- Executes frames from a point of a run until the run ends. -/
def Engine.conclude (g : Engine σ) (rounds : Nat) : Advance → Effect σ (Except Error Value)
  | .pending m => g.finishWithin rounds m
  | .done result => return result

theorem Engine.conclude_succ (g : Engine σ) (rounds : Nat) (m : Machine) :
    g.conclude (rounds + 1) (.pending m) = g.step m >>= g.conclude rounds := by
  refine congrArg (g.step m >>= ·) (funext fun a => ?_)
  cases a <;> rfl

theorem Engine.conclude_pending {g : Engine σ} {rounds : Nat} {m : Machine} {w : World σ}
    {answer : Except Error Value × World σ}
    (run : g.conclude rounds (.pending m) w = some answer) :
    ∃ left a w₁, left < rounds ∧ g.step m w = some (a, w₁) ∧ g.conclude left a w₁ = some answer := by
  cases rounds with
  | zero => cases run
  | succ left =>
    obtain ⟨result, w'⟩ := answer
    rw [conclude_succ] at run
    obtain ⟨a, w₁, step, rest⟩ := Effect.bind_eq_some.mp run
    exact ⟨left, a, w₁, Nat.lt_succ_self left, step, rest⟩

theorem Engine.Below.conclude {g h : Engine σ} (below : g.Below h) {n k : Nat} (less : n ≤ k)
    (a : Advance) : (g.conclude n a).Below (h.conclude k a) := by
  cases a with
  | pending m => exact below.finishWithin less m
  | done result => exact .refl _

namespace Host

variable {host : Host σ} {w w' w₁ w₂ : World σ} {a b : Advance} {m : Machine}
variable {n k : Nat} {calls more : List Invocation} {r : Except Error Value}

/-- The next frame leads to `a`. -/
def Steps (host : Host σ) (m : Machine) (w : World σ) (a : Advance) (w' : World σ) : Prop :=
  host.Answers (·.step m) w a w'

theorem Steps.unique (first : host.Steps m w a w₁) (second : host.Steps m w b w₂) :
    a = b ∧ w₁ = w₂ :=
  Answers.unique (fun below => below.step m) first second

/-- Performing the operation of a call frame with arguments leads to an answer. -/
def Performs (host : Host σ) (operation : Operation) (args : List Value) (w : World σ)
    (answer : Except Error Outcome) (w' : World σ) : Prop :=
  host.Answers (fun g => (g.perform operation args).run) w answer w'

section Frames

variable {frames : List Frame} {stack trace : List Value} {cap : BacktraceCap}
variable {operation : Operation} {argc : Nat} {origin : Value}

theorem steps_nil : host.Steps ⟨[], stack, trace, cap⟩ w a w' ↔
    a = .done (Machine.finish ⟨[], stack, trace, cap⟩) ∧ w' = w :=
  answers_pure

theorem steps_value {v : Value} : host.Steps ⟨.value v :: frames, stack, trace, cap⟩ w a w' ↔
    a = Machine.settle ⟨frames, v :: stack, trace, cap⟩ ∧ w' = w :=
  answers_pure

theorem steps_error {e : Error} : host.Steps ⟨.error e :: frames, stack, trace, cap⟩ w a w' ↔
    a = .done (.error (e.withTrace trace cap)) ∧ w' = w :=
  answers_pure

/-- A call frame with enough arguments leads to what performing its operation leads to. -/
theorem steps_call (enough : argc ≤ stack.length) :
    host.Steps ⟨.call operation argc origin :: frames, stack, trace, cap⟩ w a w' ↔
      ∃ answer, host.Performs operation (stack.take argc).reverse w answer w' ∧
        a = Machine.answered ⟨frames, stack.drop argc, (origin :: trace).take cap, cap⟩ answer := by
  unfold Steps
  simp only [Engine.step_call enough]
  exact answers_map

/-- A call frame on top of its arguments performs its operation on them. -/
theorem Performs.step {args : List Value} {answer : Except Error Outcome}
    (performs : host.Performs operation args w answer w') :
    host.Steps ⟨.call operation args.length origin :: frames, args.reverse ++ stack, trace, cap⟩ w
      (Machine.answered ⟨frames, stack, (origin :: trace).take cap, cap⟩ answer) w' := by
  unfold Steps
  simp only [Engine.step_args]
  exact answers_map.mpr ⟨answer, performs, rfl⟩

theorem steps_underflow (lacking : stack.length < argc) :
    host.Steps ⟨.call operation argc origin :: frames, stack, trace, cap⟩ w a w' ↔
      a = .done (.error ((Error.ofFault (.internal (.underflow argc stack.length))).withTrace
        trace cap)) ∧ w' = w := by
  have few : (stack.take argc).length = stack.length := by
    rw [List.length_take]
    omega
  unfold Steps Engine.step
  simp only [few, lacking, if_true]
  exact answers_pure

end Frames

/-- So many frames lead from one point of a run to another, making these invocations. -/
inductive Reaches (host : Host σ) :
    Nat → List Invocation → Advance → World σ → Advance → World σ → Prop
  | refl {a : Advance} {w : World σ} : Reaches host 0 [] a w a w
  | step {n : Nat} {calls : List Invocation} {m : Machine} {a b : Advance} {w w₁ w₂ : World σ} :
      host.Steps m w a w₁ → Reaches host n calls a w₁ b w₂ →
      Reaches host (n + 1) (m.invocation?.toList ++ calls) (.pending m) w b w₂

theorem Steps.reaches (step : host.Steps m w a w') :
    host.Reaches 1 m.invocation?.toList (.pending m) w a w' := by
  simpa only [List.append_nil] using Reaches.step step .refl

theorem Reaches.trans {c : Advance} (first : host.Reaches n calls a w b w₁)
    (second : host.Reaches k more b w₁ c w₂) : host.Reaches (n + k) (calls ++ more) a w c w₂ := by
  induction first with
  | refl => simpa only [Nat.zero_add, List.nil_append] using second
  | step step _ ih =>
    rw [Nat.add_right_comm, List.append_assoc]
    exact .step step (ih second)

/-- A run passes through a point after each of its frames. -/
theorem Reaches.split (reach : host.Reaches n calls a w b w₂) (within : k ≤ n) :
    ∃ c w₁ first rest, host.Reaches k first a w c w₁ ∧ host.Reaches (n - k) rest c w₁ b w₂ ∧
      calls = first ++ rest := by
  induction reach generalizing k with
  | @refl a w =>
    obtain rfl := Nat.le_zero.mp within
    exact ⟨a, w, [], [], .refl, .refl, rfl⟩
  | @step n calls m a b w w₁ w₂ step reach ih =>
    obtain _ | k := k
    · exact ⟨.pending m, w, [], _, .refl, .step step reach, rfl⟩
    obtain ⟨c, w', first, rest, before, behind, rfl⟩ := ih (Nat.le_of_succ_le_succ within)
    refine ⟨c, w', _, rest, .step step before, ?_, (List.append_assoc ..).symm⟩
    rwa [Nat.add_sub_add_right]

/-- Nothing follows the end of a run. -/
theorem Reaches.of_done (reach : host.Reaches n calls (.done r) w a w') :
    n = 0 ∧ calls = [] ∧ a = .done r ∧ w' = w := by
  cases reach
  exact ⟨rfl, rfl, rfl, rfl⟩

/-- A run that ends passes through every point that its start leads to. -/
theorem Reaches.rest (first : host.Reaches n calls a w b w₁)
    (whole : host.Reaches k more a w (.done r) w₂) :
    ∃ j rest, k = n + j ∧ more = calls ++ rest ∧ host.Reaches j rest b w₁ (.done r) w₂ := by
  induction first generalizing k more with
  | refl => exact ⟨k, more, by omega, rfl, whole⟩
  | step step _ ih =>
    cases whole with
    | step step' whole =>
      obtain ⟨rfl, rfl⟩ := step.unique step'
      obtain ⟨j, rest, rfl, rfl, reach⟩ := ih whole
      exact ⟨j, rest, by omega, by rw [List.append_assoc], reach⟩

/-- What every frame keeps, a run keeps. -/
theorem Reaches.invariant {P : Machine → Prop} {m' : Machine}
    (keeps : ∀ {m w m' w'}, host.Steps m w (.pending m') w' → P m → P m')
    (reach : host.Reaches n calls (.pending m) w (.pending m') w') (holds : P m) : P m' := by
  generalize start : Advance.pending m = a at reach
  generalize stop : Advance.pending m' = b at reach
  induction reach generalizing m with
  | refl =>
    cases start.trans stop.symm
    exact holds
  | @step _ _ _ a _ _ _ _ step reach ih =>
    cases start
    cases a with
    | done r =>
      obtain ⟨-, -, same, -⟩ := reach.of_done
      cases stop.trans same
    | pending m₁ => exact ih (keeps step holds) rfl stop

theorem Reaches.unique {r' : Except Error Value} (first : host.Reaches n calls a w (.done r) w₁)
    (second : host.Reaches k more a w (.done r') w₂) :
    n = k ∧ calls = more ∧ r = r' ∧ w₁ = w₂ := by
  obtain ⟨j, rest, rfl, rfl, reach⟩ := first.rest second
  obtain ⟨rfl, rfl, same, rfl⟩ := reach.of_done
  cases same
  exact ⟨rfl, (List.append_nil _).symm, rfl, rfl⟩

/-- The run from a point of it on comes to an end. -/
def Ends (host : Host σ) (a : Advance) (w : World σ) (r : Except Error Value) (w' : World σ) :
    Prop :=
  ∃ n calls, host.Reaches n calls a w (.done r) w'

theorem Reaches.ends_iff (reach : host.Reaches n calls a w b w₁) :
    host.Ends a w r w' ↔ host.Ends b w₁ r w' := by
  constructor
  · rintro ⟨k, more, whole⟩
    obtain ⟨j, rest, -, -, rest⟩ := reach.rest whole
    exact ⟨j, _, rest⟩
  · rintro ⟨k, more, rest⟩
    exact ⟨_, _, reach.trans rest⟩

theorem ends_done {r' : Except Error Value} : host.Ends (.done r) w r' w' ↔ r' = r ∧ w' = w := by
  constructor
  · rintro ⟨n, calls, reach⟩
    obtain ⟨-, -, same, rfl⟩ := reach.of_done
    cases same
    exact ⟨rfl, rfl⟩
  · rintro ⟨rfl, rfl⟩
    exact ⟨0, [], .refl⟩

/-- A run that goes on ends as its next point does. -/
theorem Steps.conclude (step : host.Steps m w a w₁)
    (rest : host.Answers (fun g => g.conclude g.fuel a) w₁ r w') :
    host.Answers (fun g => g.conclude g.fuel (.pending m)) w r w' :=
  (answers_loop (fun n g => g.conclude n (.pending m)) (fun _ g => g.step m)
    (fun a n g => g.conclude n a) (fun less below => below.conclude less _)
    (fun _ below => below.step m) (fun a _ _ _ _ less below => below.conclude less a)
    (fun _ => rfl) fun n g => g.conclude_succ n m).mpr ⟨a, w₁, step, rest⟩

/-- Executing frames until the run ends is reaching its end. -/
theorem conclude_iff_ends :
    host.Answers (fun g => g.conclude g.fuel a) w r w' ↔ host.Ends a w r w' := by
  constructor
  · rintro ⟨fuel, run⟩
    simp only [Engine.withFuel_fuel] at run
    suffices ends : ∀ rounds, (Engine.withFuel host fuel).conclude rounds a w = some (r, w') →
        host.Ends a w r w' from ends fuel run
    clear run
    intro rounds run
    induction rounds generalizing a w with
    | zero =>
      cases a with
      | pending m => cases run
      | done result => exact ends_done.mpr (Effect.pure_eq_some.mp run)
    | succ rounds ih =>
      cases a with
      | pending m =>
        rw [Engine.conclude_succ] at run
        obtain ⟨a, w₁, step, run⟩ := Effect.bind_eq_some.mp run
        have step : host.Steps m w a w₁ := ⟨fuel, step⟩
        exact step.reaches.ends_iff.mpr (ih run)
      | done result => exact ends_done.mpr (Effect.pure_eq_some.mp run)
  · rintro ⟨n, calls, reach⟩
    generalize ending : Advance.done r = b at reach
    induction reach with
    | refl =>
      subst ending
      exact answers_pure.mpr ⟨rfl, rfl⟩
    | step step _ ih => exact step.conclude (ih ending)

theorem execute_iff_ends {s : Stream} {cap : BacktraceCap} :
    host.Answers (·.execute s cap) w r w' ↔ host.Ends (.pending (.start s cap)) w r w' :=
  conclude_iff_ends (a := .pending (.start s cap))

end Host

end CooperativeLisp

import CooperativeLisp.Proofs.Run

/-!
Splicing. A stream that is put in front of waiting frames does there, frame by frame, what it does
in a run of its own: it leaves the frames, the values and the trace below it alone, and ends with
one more value or with the same failure. Only a stream that takes more values than it pushed, or
leaves more or fewer than one behind, can tell the two runs apart.
-/

namespace CooperativeLisp

variable {σ : Type}

/-- The faults of a run whose stream takes or leaves a wrong number of values. -/
def Fault.IsUnbalanced : Fault → Prop
  | .internal (.underflow ..) | .internal .noValue | .internal (.surplus _) => True
  | _ => False

theorem take_append_congr {α : Type} {n : Nat} {xs ys : List α} (front : List α)
    (same : xs.take n = ys.take n) : (front ++ xs).take n = (front ++ ys).take n := by
  have shorter : xs.take (n - front.length) = ys.take (n - front.length) := by
    have less : min (n - front.length) n = n - front.length := by omega
    rw [← less, ← List.take_take, ← List.take_take, same]
  rw [List.take_append, List.take_append, shorter]

theorem take_take_append {α : Type} {n : Nat} {xs ys : List α} :
    (xs.take n ++ ys).take n = (xs ++ ys).take n := by
  rw [List.take_append, List.take_append, List.take_take, Nat.min_self, List.length_take]
  congr 2
  omega

/-! ### The trace of a run -/

namespace Host

variable {host : Host σ} {w w' w₁ : World σ} {m m' : Machine} {n : Nat} {calls : List Invocation}

/-- A frame adds the origin of its invocation to the trace. -/
theorem Steps.trace (step : host.Steps m w (.pending m') w') : m'.cap = m.cap ∧
    m'.trace.take m.cap = (m.invocation?.toList.map (·.origin) ++ m.trace).take m.cap := by
  obtain ⟨frames, stack, trace, cap⟩ := m
  cases frames with
  | nil => cases (steps_nil.mp step).1
  | cons f frames =>
    cases f with
    | value v =>
      obtain ⟨rfl, -⟩ := Machine.pending_of_settle (steps_value.mp step).1.symm
      exact ⟨rfl, rfl⟩
    | error e => cases (steps_error.mp step).1
    | call operation argc origin =>
      by_cases enough : argc ≤ stack.length
      · obtain ⟨answer, performs, leads⟩ := (steps_call enough).mp step
        cases answer with
        | error e => cases leads
        | ok outcome =>
          obtain ⟨rfl, -⟩ := Machine.pending_of_settle leads.symm
          rw [Machine.invocation?_call enough]
          cases outcome <;> simp [Machine.accept, List.take_take]
      · cases ((steps_underflow (Nat.lt_of_not_le enough)).mp step).1

/-- The trace of a run names its latest invocations, most recent first. -/
theorem Reaches.trace (reach : host.Reaches n calls (.pending m) w (.pending m') w') :
    m'.cap = m.cap ∧
      m'.trace.take m.cap = (calls.reverse.map (·.origin) ++ m.trace).take m.cap := by
  generalize start : Advance.pending m = a at reach
  generalize stop : Advance.pending m' = b at reach
  induction reach generalizing m with
  | refl =>
    cases start.trans stop.symm
    exact ⟨rfl, rfl⟩
  | @step _ calls m₀ a _ _ _ _ step reach ih =>
    cases start
    cases a with
    | done r =>
      obtain ⟨-, -, same, -⟩ := reach.of_done
      cases stop.trans same
    | pending m₁ =>
      obtain ⟨cap, first⟩ := step.trace
      obtain ⟨rest, after⟩ := ih rfl stop
      refine ⟨rest.trans cap, ?_⟩
      rw [cap] at after
      rw [after, take_append_congr _ first]
      cases m₀.invocation? <;> simp

end Host

/-! ### A run on top of waiting frames -/

/-- The machine `m` has what `alone` has on top of what `below` has. -/
structure Machine.Atop (below alone m : Machine) : Prop where
  frames : m.frames = alone.frames ++ below.frames
  stack : m.stack = alone.stack ++ below.stack
  trace : m.trace.take below.cap = (alone.trace ++ below.trace).take below.cap
  cap : m.cap = below.cap
  capAlone : alone.cap = below.cap

/-- What a run of its own leads to, and what the same frames lead to on top of others. -/
inductive Advance.Atop (below : Machine) : Advance → Advance → Prop
  | pending {alone m : Machine} : alone.frames ≠ [] → below.Atop alone m →
      Atop below (.pending alone) (.pending m)
  | finished {alone m : Machine} {r : Except Error Value} {b : Advance} : alone.frames = [] →
      below.Atop alone m → r = alone.finish → b = m.settle → Atop below (.done r) b
  | failed {alone m : Machine} {e : Error} {r : Except Error Value} {b : Advance} :
      below.Atop alone m → .done r = alone.fail e → b = m.fail e → Atop below (.done r) b

namespace Machine.Atop

variable {below alone m : Machine}

theorem settle (atop : below.Atop alone m) : Advance.Atop below alone.settle m.settle := by
  by_cases more : alone.frames = []
  · rw [settle_done more]
    exact .finished more atop rfl rfl
  · have more' : m.frames ≠ [] := by
      rw [atop.frames]
      exact List.append_ne_nil_of_left_ne_nil more _
    rw [settle_pending more, settle_pending more']
    exact .pending more atop

theorem accept (atop : below.Atop alone m) (outcome : Outcome) :
    below.Atop (alone.accept outcome) (m.accept outcome) := by
  obtain ⟨frames, stack, trace, cap, capAlone⟩ := atop
  cases outcome with
  | value v =>
    exact ⟨frames, by simp only [Machine.accept, stack, List.cons_append], trace, cap, capAlone⟩
  | stream s =>
    exact ⟨by simp only [Machine.accept, frames, List.append_assoc], stack, trace, cap, capAlone⟩

theorem answered (atop : below.Atop alone m) (answer : Except Error Outcome) :
    Advance.Atop below (alone.answered answer) (m.answered answer) := by
  cases answer with
  | ok outcome => exact (atop.accept outcome).settle
  | error e => exact .failed atop rfl rfl

/-- A call frame that finds its arguments above the waiting values takes them from there. -/
theorem enter {argc : Nat} (atop : below.Atop alone m) (enough : argc ≤ alone.stack.length)
    (frames : List Frame) (origin : Value) :
    below.Atop (alone.enter frames argc origin) (m.enter (frames ++ below.frames) argc origin) := by
  refine ⟨rfl, ?_, ?_, atop.cap, atop.capAlone⟩
  · simp only [Machine.enter, atop.stack]
    exact List.drop_append_of_le_length enough
  · have longer := take_append_congr [origin] atop.trace
    simp only [Machine.enter, atop.cap, atop.capAlone]
    rw [List.take_take, Nat.min_self, take_take_append]
    exact longer

end Machine.Atop

namespace Host

variable {host : Host σ} {below alone m : Machine}
variable {w w' : World σ} {n : Nat} {calls : List Invocation} {r : Except Error Value}

variable (host) in
/-- Unless the next frame takes more values than its own run has, it does the same on top of
others. -/
theorem steps_atop (more : alone.frames ≠ []) (atop : below.Atop alone m) :
    (∃ e : Error, e.fault.IsUnbalanced ∧ ∀ w, host.Steps alone w (.done (.error e)) w) ∨
    m.invocation? = alone.invocation? ∧
      (∀ {w a w₁}, host.Steps alone w a w₁ → ∃ b, host.Steps m w b w₁ ∧ a.Atop below b) ∧
      ∀ {w b w₁}, host.Steps m w b w₁ → ∃ a, host.Steps alone w a w₁ ∧ a.Atop below b := by
  obtain ⟨frames, stack, trace, cap⟩ := alone
  obtain ⟨frames', stack', trace', cap'⟩ := m
  obtain ⟨rfl, rfl, -, rfl, rfl⟩ := id atop
  dsimp only at more
  cases frames with
  | nil => exact absurd rfl more
  | cons f frames =>
    cases f with
    | value v =>
      have next : below.Atop ⟨frames, v :: stack, trace, below.cap⟩
          ⟨frames ++ below.frames, v :: (stack ++ below.stack), trace', below.cap⟩ :=
        ⟨rfl, rfl, atop.trace, rfl, rfl⟩
      refine Or.inr ⟨rfl, fun step => ?_, fun step => ?_⟩
      · obtain ⟨rfl, rfl⟩ := steps_value.mp step
        exact ⟨_, steps_value.mpr ⟨rfl, rfl⟩, next.settle⟩
      · obtain ⟨rfl, rfl⟩ := steps_value.mp step
        exact ⟨_, steps_value.mpr ⟨rfl, rfl⟩, next.settle⟩
    | error e =>
      refine Or.inr ⟨rfl, fun step => ?_, fun step => ?_⟩
      · obtain ⟨rfl, rfl⟩ := steps_error.mp step
        exact ⟨_, steps_error.mpr ⟨rfl, rfl⟩, .failed atop rfl rfl⟩
      · obtain ⟨rfl, rfl⟩ := steps_error.mp step
        exact ⟨_, steps_error.mpr ⟨rfl, rfl⟩, .failed atop rfl rfl⟩
    | call operation argc origin =>
      by_cases enough : argc ≤ stack.length
      · have enough' : argc ≤ (stack ++ below.stack).length := by
          rw [List.length_append]
          omega
        have taken : (stack ++ below.stack).take argc = stack.take argc :=
          List.take_append_of_le_length enough
        have next := atop.enter enough frames origin
        refine Or.inr ⟨?_, fun step => ?_, fun step => ?_⟩
        · simp only [Machine.invocation?, List.cons_append, taken]
        · obtain ⟨answer, performs, rfl⟩ := (steps_call enough).mp step
          rw [← taken] at performs
          exact ⟨_, (steps_call enough').mpr ⟨answer, performs, rfl⟩, next.answered answer⟩
        · obtain ⟨answer, performs, rfl⟩ := (steps_call enough').mp step
          rw [taken] at performs
          exact ⟨_, (steps_call enough).mpr ⟨answer, performs, rfl⟩, next.answered answer⟩
      · have lacking := Nat.lt_of_not_le enough
        exact Or.inl ⟨(Error.ofFault (.internal (.underflow argc stack.length))).withTrace trace
          below.cap, trivial, fun w => (steps_underflow lacking).mpr ⟨rfl, rfl⟩⟩

/-- A run that ends, and not with an unbalanced stream, is made on top of others as well. -/
theorem Reaches.atop (reach : host.Reaches n calls (.pending alone) w (.done r) w')
    (balanced : ∀ e, r = .error e → ¬ e.fault.IsUnbalanced) (more : alone.frames ≠ [])
    (atop : below.Atop alone m) :
    ∃ b, host.Reaches n calls (.pending m) w b w' ∧ Advance.Atop below (.done r) b := by
  generalize start : Advance.pending alone = a at reach
  generalize stop : Advance.done r = b at reach
  induction reach generalizing alone m with
  | refl => cases start.trans stop.symm
  | @step _ calls alone' a b w w₁ w₂ step reach ih =>
    cases start
    obtain ⟨e, unbalanced, fails⟩ | ⟨same, step', -⟩ := steps_atop host more atop
    · obtain ⟨rfl, rfl⟩ := step.unique (fails w)
      obtain ⟨-, -, rfl, -⟩ := reach.of_done
      cases stop
      exact absurd unbalanced (balanced e rfl)
    · obtain ⟨b', step', atop⟩ := step' step
      rw [← same]
      cases a with
      | pending alone =>
        cases atop with
        | pending more atop =>
          obtain ⟨b, reach, atop⟩ := ih more atop rfl stop
          exact ⟨b, .step step' reach, atop⟩
      | done r' =>
        obtain ⟨rfl, rfl, rfl, rfl⟩ := reach.of_done
        cases stop
        exact ⟨b', by simpa only [List.append_nil] using step'.reaches, atop⟩

/-- A run on top of others ends only if its stream ends in a run of its own. -/
theorem Reaches.ends_alone (reach : host.Reaches n calls (.pending m) w (.done r) w')
    (more : alone.frames ≠ []) (atop : below.Atop alone m) :
    ∃ r' w₁, host.Ends (.pending alone) w r' w₁ := by
  generalize start : Advance.pending m = a at reach
  generalize stop : Advance.done r = b at reach
  induction reach generalizing alone m with
  | refl => cases start.trans stop.symm
  | step step reach ih =>
    cases start
    obtain ⟨e, -, fails⟩ | ⟨-, -, back⟩ := steps_atop host more atop
    · exact ⟨_, _, _, _, (fails _).reaches⟩
    · obtain ⟨a, step', atop⟩ := back step
      cases atop with
      | pending more atop =>
        obtain ⟨r', w₁, ends⟩ := ih more atop rfl stop
        exact ⟨r', w₁, step'.reaches.ends_iff.mpr ends⟩
      | finished => exact ⟨_, _, _, _, step'.reaches⟩
      | failed => exact ⟨_, _, _, _, step'.reaches⟩

/-! ### Spliced streams -/

variable {M : Stream}

theorem start_empty {cap : BacktraceCap} (empty : M.frames = []) :
    host.Steps (.start M cap) w (.done (.error (Fault.internal .noValue))) w := by
  unfold Machine.start
  rw [empty]
  exact steps_nil.mpr ⟨rfl, rfl⟩

/-- Below a spliced stream stand the frames of the machine; the stream is on top of them as in a run
of its own. -/
theorem atop_spliced (positive : max below.cap 1 = below.cap) (M : Stream) :
    below.Atop (.start M below.cap) (below.accept (.stream M)) :=
  ⟨rfl, rfl, rfl, rfl, positive⟩

theorem answered_spliced (some : M.frames ≠ []) :
    below.answered (.ok (.stream M)) = .pending (below.accept (.stream M)) :=
  Machine.settle_pending (List.append_ne_nil_of_left_ne_nil some _)

/-- The end of a run of its own is an end on top of others, unless the stream is unbalanced. -/
theorem Reaches.spliced (below : Machine) (positive : max below.cap 1 = below.cap)
    (reach : host.Reaches n calls (.pending (.start M below.cap)) w (.done r) w')
    (balanced : ∀ e, r = .error e → ¬ e.fault.IsUnbalanced) :
    ∃ b, host.Reaches n calls (below.answered (.ok (.stream M))) w b w' ∧
      Advance.Atop below (.done r) b := by
  by_cases empty : M.frames = []
  · obtain ⟨-, -, rfl, -⟩ := reach.unique (start_empty empty).reaches
    exact absurd trivial (balanced _ rfl)
  · rw [answered_spliced empty]
    exact reach.atop balanced empty (atop_spliced positive M)

/-- The trace below a settled machine names the invocations before, as far as the machine still
looks at it. -/
theorem Reaches.settled {m₀ : Machine} {G : List Frame} {S T : List Value}
    (reach : host.Reaches n calls m₀.settle w (Machine.settle ⟨G, S, T, m₀.cap⟩) w') :
    ∃ T', T'.take m₀.cap = (calls.reverse.map (·.origin) ++ m₀.trace).take m₀.cap ∧
      host.Reaches n calls m₀.settle w (Machine.settle ⟨G, S, T', m₀.cap⟩) w' := by
  cases G with
  | nil => exact ⟨_, rfl, reach⟩
  | cons f G =>
    refine ⟨T, ?_, reach⟩
    by_cases empty : m₀.frames = []
    · rw [Machine.settle_done empty] at reach
      cases reach.of_done.2.2.1
    · rw [Machine.settle_pending empty] at reach
      exact reach.trace.2

/-- A machine with a stream spliced in comes to its own frames with the value of the stream. -/
theorem Reaches.spliced_value {v : Value} (below : Machine) (positive : max below.cap 1 = below.cap)
    (reach : host.Reaches n calls (.pending (.start M below.cap)) w (.done (.ok v)) w') :
    ∃ T', T'.take below.cap = (calls.reverse.map (·.origin) ++ below.trace).take below.cap ∧
      host.Reaches n calls (below.answered (.ok (.stream M))) w
        (Machine.settle ⟨below.frames, v :: below.stack, T', below.cap⟩) w' := by
  obtain ⟨b, reach, atop⟩ := reach.spliced below positive fun _ error => nomatch error
  cases atop with
  | @finished alone m _ _ empty atop value rest =>
    have frames : m.frames = below.frames := by rw [atop.frames, empty, List.nil_append]
    have stack : m.stack = v :: below.stack := by
      have single : alone.stack = [v] := by
        unfold Machine.finish at value
        split at value <;> simp_all
      rw [atop.stack, single, List.singleton_append]
    have same : m = ⟨below.frames, v :: below.stack, m.trace, below.cap⟩ := by
      rw [← frames, ← stack, ← atop.cap]
    rw [rest, same] at reach
    exact reach.settled
  | failed _ failure _ => cases failure

/-- A machine with a stream spliced in fails with the fault of the stream. -/
theorem Reaches.spliced_failure {e : Error} (below : Machine) (positive : max below.cap 1 = below.cap)
    (reach : host.Reaches n calls (.pending (.start M below.cap)) w (.done (.error e)) w')
    (balanced : ¬ e.fault.IsUnbalanced) :
    ∃ e', host.Reaches n calls (below.answered (.ok (.stream M))) w (.done (.error e')) w' ∧
      e'.fault = e.fault ∧ e'.backtrace = (e.backtrace ++ below.trace).take below.cap := by
  obtain ⟨b, reached, atop⟩ := reach.spliced below positive fun e' same => by
    cases same
    exact balanced
  cases atop with
  | @finished alone _ _ _ _ _ failure _ =>
    refine absurd ?_ balanced
    unfold Machine.finish at failure
    split at failure
    · cases failure
    · cases failure
      trivial
    · cases failure
      trivial
  | @failed alone m e' _ _ atop failure failure' =>
    cases failure
    subst failure'
    refine ⟨e'.withTrace m.trace m.cap, reached, rfl, ?_⟩
    simp only [Error.withTrace, atop.cap, atop.capAlone]
    rw [take_append_congr e'.backtrace atop.trace, take_take_append, List.append_assoc]

/-- A machine with a stream spliced in ends only if the stream does. -/
theorem spliced_ends (below : Machine) (positive : max below.cap 1 = below.cap)
    (ends : host.Ends (below.answered (.ok (.stream M))) w r w') :
    ∃ r' w₁, host.Answers (·.execute M below.cap) w r' w₁ := by
  by_cases empty : M.frames = []
  · exact ⟨_, _, execute_iff_ends.mpr ⟨_, _, (start_empty empty).reaches⟩⟩
  · rw [answered_spliced empty] at ends
    obtain ⟨n, calls, reach⟩ := ends
    obtain ⟨r', w₁, ends⟩ := reach.ends_alone empty (atop_spliced positive M)
    exact ⟨r', w₁, execute_iff_ends.mpr ends⟩

/-- Splicing a stream into a machine is executing it in a run of its own. If that run returns a
value, the machine comes to its own frames, with the value on its own stack and after the same
invocations; if it fails, the machine fails with the same fault and with its own trace behind the
backtrace; if it does not end, the machine does not end. -/
theorem splice_eq_execute (M : Stream) (G : List Frame) (S T : List Value) (cap : BacktraceCap)
    (w : World σ) :
    (∀ n calls v w', host.Reaches n calls (.pending (.start M cap)) w (.done (.ok v)) w' →
      ∃ T', T'.take (max cap 1) = (calls.reverse.map (·.origin) ++ T).take (max cap 1) ∧
        host.Reaches n calls (Machine.answered ⟨G, S, T, max cap 1⟩ (.ok (.stream M))) w
          (Machine.settle ⟨G, v :: S, T', max cap 1⟩) w') ∧
    (∀ n calls e w', host.Reaches n calls (.pending (.start M cap)) w (.done (.error e)) w' →
      ¬ e.fault.IsUnbalanced →
      ∃ e', host.Reaches n calls (Machine.answered ⟨G, S, T, max cap 1⟩ (.ok (.stream M))) w
          (.done (.error e')) w' ∧
        e'.fault = e.fault ∧ e'.backtrace = (e.backtrace ++ T).take (max cap 1)) ∧
    ((∀ r w', ¬ host.Answers (·.execute M cap) w r w') →
      ∀ r w', ¬ host.Ends (Machine.answered ⟨G, S, T, max cap 1⟩ (.ok (.stream M))) w r w') := by
  have positive : max (max cap 1) 1 = max cap 1 := Nat.max_eq_left (Nat.le_max_right cap 1)
  have start : Machine.start M (max cap 1) = Machine.start M cap := by
    simp only [Machine.start, positive]
  refine ⟨fun n calls v w' reach => ?_, fun n calls e w' reach balanced => ?_,
    fun never r w' ends => ?_⟩
  · rw [← start] at reach
    exact reach.spliced_value ⟨G, S, T, max cap 1⟩ positive
  · rw [← start] at reach
    exact reach.spliced_failure ⟨G, S, T, max cap 1⟩ positive balanced
  · obtain ⟨r', w₁, answers⟩ := spliced_ends ⟨G, S, T, max cap 1⟩ positive ends
    refine never r' w₁ ?_
    unfold Engine.execute at answers ⊢
    rwa [start] at answers

end Host

end CooperativeLisp

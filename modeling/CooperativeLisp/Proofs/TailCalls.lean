import CooperativeLisp.Extension
import CooperativeLisp.Proofs.Balance
import CooperativeLisp.Proofs.Splice
import CooperativeLisp.Proofs.Tail

/-!
Tail calls leave nothing behind. A call in tail position of a closure's body is made with the
frames and the values that the closure itself was called with: conditions, sequences and the
functions that binding forms expand into are gone from the machine by then. A loop of such calls
can go on for ever without growing the machine.
-/

namespace CooperativeLisp

variable {σ : Type}

namespace Host


/-- A closure is entered again so many times, each time by a call in tail position of its body. -/
inductive Loops (host : Host σ) (f : Closure) :
    Nat → Invocation → World σ → Invocation → World σ → Prop
  | entry {c : Callable} {i : Invocation} {scope : Environment} {w w₁ : World σ} :
      i.operation = .callable c → host.Enters c i.args w f scope w₁ → Loops host f 0 i w i w
  | again {k : Nat} {c : Callable} {i j last : Invocation} {scope env : Environment} {e : Value}
      {w w₁ w₂ w₃ w' : World σ} : i.operation = .callable c →
      host.Enters c i.args w f scope w₁ → host.TailPosition scope f.body w₁ env e w₂ →
      host.Readies env e w₂ j w₃ → Loops host f k j w₃ last w' → Loops host f (k + 1) i w last w'

section
variable {host : Host σ} {env scope : Environment} {e : Value} {i j : Invocation} {c : Callable}
variable {f : Closure} {w w' w₁ w₂ : World σ} {m m' : Machine} {n k : Nat}
variable {calls : List Invocation} {G : List Frame} {S T : List Value} {cap limit : BacktraceCap}

theorem TailPosition.from_call (operation : i.operation = .callable c)
    (enters : host.Enters c i.args w f scope w₁)
    (position : host.TailPosition scope f.body w₁ env e w₂) (readies : host.Readies env e w₂ j w') :
    ∃ n calls T', host.Reaches n calls (.pending (Machine.calling ⟨G, S, T, cap⟩ i)) w
      (.pending (Machine.calling ⟨G, S, T', cap⟩ j)) w' := by
  have yields : host.Yields i.operation i.args w scope f.body w₁ := by
    rw [operation]
    exact .body enters
  exact (position.endsIn (.here readies)).from_call yields G S T cap

theorem Loops.reaches (loops : host.Loops f k i w j w') (G : List Frame) (S T : List Value)
    (cap : BacktraceCap) :
    ∃ n calls T', host.Reaches n calls (.pending (Machine.calling ⟨G, S, T, cap⟩ i)) w
      (.pending (Machine.calling ⟨G, S, T', cap⟩ j)) w' := by
  induction loops generalizing T with
  | entry => exact ⟨0, [], T, .refl⟩
  | again operation enters position readies _ ih =>
    obtain ⟨n, calls, T₁, first⟩ := position.from_call (T := T) operation enters readies
    obtain ⟨k, more, T₂, rest⟩ := ih T₁
    exact ⟨_, _, T₂, first.trans rest⟩

/-- A frame leaves no more in the trace than its bound allows. -/
theorem Steps.trace_length (step : host.Steps m w (.pending m') w')
    (within : m.trace.length ≤ m.cap ∧ m.cap = cap) : m'.trace.length ≤ m'.cap ∧ m'.cap = cap := by
  obtain ⟨frames, stack, trace, cap'⟩ := m
  cases frames with
  | nil => cases (steps_nil.mp step).1
  | cons frame frames =>
    cases frame with
    | value v =>
      obtain ⟨rfl, -⟩ := Machine.pending_of_settle (steps_value.mp step).1.symm
      exact within
    | error e => cases (steps_error.mp step).1
    | call operation argc origin =>
      by_cases enough : argc ≤ stack.length
      · obtain ⟨answer, -, leads⟩ := (steps_call enough).mp step
        cases answer with
        | error e => cases leads
        | ok outcome =>
          obtain ⟨rfl, -⟩ := Machine.pending_of_settle leads.symm
          have shorter : ((origin :: trace).take cap').length ≤ cap' := List.length_take_le _ _
          cases outcome <;> exact ⟨shorter, within.2⟩
      · cases ((steps_underflow (Nat.lt_of_not_le enough)).mp step).1

theorem Reaches.trace_length
    (reach : host.Reaches n calls (.pending (.start s limit)) w (.pending m) w') :
    m.trace.length ≤ m.cap ∧ m.cap = max limit 1 :=
  reach.invariant (P := fun m => m.trace.length ≤ m.cap ∧ m.cap = max limit 1)
    (fun step within => step.trace_length within) ⟨Nat.zero_le _, rfl⟩

/-- What a run does on its own it does on top of others, as long as it has frames of its own. -/
theorem Reaches.pending_atop {below alone alone' : Machine}
    (reach : host.Reaches n calls (.pending alone) w (.pending alone') w')
    (more : alone.frames ≠ []) (atop : below.Atop alone m) :
    ∃ m', host.Reaches n calls (.pending m) w (.pending m') w' ∧ below.Atop alone' m' := by
  generalize start : Advance.pending alone = a at reach
  generalize stop : Advance.pending alone' = b at reach
  induction reach generalizing alone m with
  | refl =>
    cases start.trans stop.symm
    exact ⟨m, .refl, atop⟩
  | @step _ _ _ a _ _ _ _ step reach ih =>
    cases start
    cases a with
    | done r =>
      obtain ⟨-, -, same, -⟩ := reach.of_done
      cases stop.trans same
    | pending alone₁ =>
      obtain ⟨e, -, fails⟩ | ⟨same, onTop, -⟩ := steps_atop host more atop
      · cases (step.unique (fails _)).1
      · obtain ⟨b, step', atop'⟩ := onTop step
        cases atop' with
        | pending more' atop' =>
          obtain ⟨m', rest, atop''⟩ := ih more' atop' rfl stop
          rw [← same]
          exact ⟨m', .step step' rest, atop''⟩

/-- As soon as a single call frame is left of what a call put on the machine, its arguments are all
that is left on top of the values. -/
theorem Sound.last_call (sound : host.Sound) {alone : Machine} {operation : Operation} {argc : Nat}
    {origin : Value}
    (reach : host.Reaches n calls (.pending (Machine.calling ⟨[], [], [], cap⟩ i)) w
      (.pending alone) w') (last : alone.frames = [.call operation argc origin])
    (G : List Frame) (S T : List Value) :
    ∃ args T', args.length = argc ∧
      host.Reaches n calls (.pending (Machine.calling ⟨G, S, T, cap⟩ i)) w
        (.pending (Machine.calling ⟨G, S, T', cap⟩ ⟨operation, args, origin⟩)) w' := by
  have start : (Machine.calling ⟨[], [], [], cap⟩ i).InBalance := by
    right
    simp [Machine.calling, Balanced]
  have balanced := reach.invariant (fun step => step.inBalance sound) start
  have height : alone.stack.length = argc := by
    rcases balanced with ⟨e, rest, failing⟩ | balanced
    · cases last.symm.trans failing
    · rw [last] at balanced
      obtain ⟨enough, single⟩ := balanced
      have single : alone.stack.length - argc + 1 = 1 := single
      omega
  have atop : Machine.Atop ⟨G, S, T, cap⟩ (Machine.calling ⟨[], [], [], cap⟩ i)
      (Machine.calling ⟨G, S, T, cap⟩ i) := by
    refine ⟨rfl, ?_, rfl, rfl, rfl⟩
    simp [Machine.calling]
  obtain ⟨⟨frames, stack, trace, cap'⟩, reached, frames', stack', -, cap'', -⟩ :=
    reach.pending_atop (by simp [Machine.calling]) atop
  dsimp only at frames' stack' cap''
  subst frames' stack' cap''
  refine ⟨alone.stack.reverse, trace, by simpa using height, ?_⟩
  simpa [Machine.calling, last, height] using reached

/-- Tail calls leave nothing behind. Let a run come to a call that enters a closure, with the frames
`G` and the values `S` below it. Every call in tail position of the closure's body is made with
exactly `G` and `S` below it; so is every later entry of a loop of such calls, however often it has
gone round, with no more in the trace than its bound allows. And whenever a single call frame is
left of what the call put on the machine, nothing but its arguments stands on `S`. -/
theorem Sound.tail_calls_leave_nothing (sound : host.Sound) {s : Stream} {w₀ : World σ}
    (run : host.Reaches n calls (.pending (.start s limit)) w₀
      (.pending (Machine.calling ⟨G, S, T, cap⟩ i)) w)
    (operation : i.operation = .callable c) (enters : host.Enters c i.args w f scope w₁) :
    (∀ env e w₂ j w₃, host.TailPosition scope f.body w₁ env e w₂ → host.Readies env e w₂ j w₃ →
      ∃ n calls T', host.Reaches n calls (.pending (Machine.calling ⟨G, S, T, cap⟩ i)) w
        (.pending (Machine.calling ⟨G, S, T', cap⟩ j)) w₃) ∧
    (∀ k j w', host.Loops f k i w j w' → ∃ n calls T', T'.length ≤ max limit 1 ∧
      host.Reaches n calls (.pending (Machine.calling ⟨G, S, T, cap⟩ i)) w
        (.pending (Machine.calling ⟨G, S, T', cap⟩ j)) w') ∧
    ∀ n calls alone w' operation argc origin,
      host.Reaches n calls (.pending (Machine.calling ⟨[], [], [], cap⟩ i)) w (.pending alone) w' →
      alone.frames = [.call operation argc origin] → ∃ args T', args.length = argc ∧
        host.Reaches n calls (.pending (Machine.calling ⟨G, S, T, cap⟩ i)) w
          (.pending (Machine.calling ⟨G, S, T', cap⟩ ⟨operation, args, origin⟩)) w' := by
  refine ⟨?_, ?_, ?_⟩
  · intro env e w₂ j w₃ position readies
    exact position.from_call operation enters readies
  · intro k j w' loops
    obtain ⟨n', calls', T', reach⟩ := loops.reaches G S T cap
    obtain ⟨short, bound⟩ := (run.trans reach).trace_length
    rw [bound] at short
    exact ⟨n', calls', T', short, reach⟩
  · intro n calls alone w' operation argc origin reach last
    exact sound.last_call reach last G S T

end

/-- A function that calls itself and nothing else. -/
def looping : Closure :=
  ⟨0, [], .ignored, Library.apply (.form .conditional) [.truth, .list [Library.self]], ⟨0, []⟩⟩

theorem tail_calls_leave_nothing_looping :
    let list : Frame := .call (.callable (.native (.primitive .list))) 2 .nil
    let s : Stream := ⟨[.value .nil, .call (.callable (.closure looping)) 0 .nil, list], false⟩
    let w : World Unit := ⟨⟨#[∅]⟩, 1, ()⟩
    let scopes := (w.scopes.openChild looping.env (Table.ofEntries (looping.arguments []))).2
    let i : Invocation := ⟨.callable (.closure looping), [], .nil⟩
    let j : Invocation := ⟨.callable (.closure looping), [], .list [Library.self]⟩
    listing.Sound ∧
      listing.Reaches 1 [] (.pending (.start s 10)) w
        (.pending (Machine.calling ⟨[list], [.nil], [], 10⟩ i)) w ∧
      listing.Loops looping 1 i w j { w with scopes } ∧
      ∃ n calls T', T'.length ≤ 10 ∧
        listing.Reaches n calls (.pending (Machine.calling ⟨[list], [.nil], [], 10⟩ i)) w
          (.pending (Machine.calling ⟨[list], [.nil], T', 10⟩ j)) { w with scopes } := by
  intro list s w scopes i j
  have run : listing.Reaches 1 [] (.pending (.start s 10)) w
      (.pending (Machine.calling ⟨[list], [.nil], [], 10⟩ i)) w :=
    Steps.reaches (steps_value.mpr ⟨rfl, rfl⟩)
  have enters : listing.Enters (.closure looping) [] w looping ⟨1, [0]⟩ { w with scopes } :=
    .closure rfl
  have operator : scopes.operator ⟨1, [0]⟩ Library.self = .ok (.closure looping) := by
    have opened : w.scopes.openChild looping.env (Table.ofEntries (looping.arguments [])) =
        (⟨1, [0]⟩, scopes) := rfl
    have bound : scopes.get? ⟨1, [0]⟩ Symbol.selfName = some (.callable (.closure looping)) :=
      Scopes.get?_openChild opened (Table.ofEntries_get _ _)
    simp only [Scopes.operator, Library.self, bound]
  have position : listing.TailPosition ⟨1, [0]⟩ looping.body { w with scopes } ⟨1, [0]⟩
      (.list [Library.self]) { w with scopes } :=
    .consequent rfl (Nat.zero_le 1) (.evaluates (.atom trivial) .value) rfl .here
  have readies : listing.Readies ⟨1, [0]⟩ (.list [Library.self]) { w with scopes } j
      { w with scopes } :=
    ⟨[], _, .application (c := .closure looping) operator trivial .nil, .nil⟩
  have loops : listing.Loops looping 1 i w j { w with scopes } :=
    .again rfl enters position readies (.entry rfl (.closure rfl))
  refine ⟨listing_sound, run, loops, ?_⟩
  exact (listing_sound.tail_calls_leave_nothing run rfl enters).2.1 1 j _ loops

/-! ### Streams that leave two values -/

/-- A body whose only call is one of `list`, with a native for its operand that answers with a
stream of two values. -/
def spreadBody : Value :=
  Library.apply (.primitive .list)
    [Library.apply (.callable (.native (.host "spread"))) [.truth, .nil]]

/-- A call of the function of that body. -/
def spreadCall : Invocation :=
  ⟨.callable (.closure ⟨0, [], .ignored, spreadBody, ⟨0, []⟩⟩), [], .nil⟩

/-- A tail call takes one of the two values and leaves the other behind. -/
theorem not_leaves_nothing_spread : ¬ ∀ n calls m w', Extension.host.Reaches n calls
    (.pending (Machine.calling ⟨[], [], [], 10⟩ spreadCall)) ⟨⟨#[∅]⟩, 1, []⟩ (.pending m) w' →
    ∀ operation argc rest, m.frames = .call operation argc spreadBody :: rest →
      rest = [] ∧ m.stack.drop argc = [] := by
  intro leaves
  have entered : Extension.host.Steps (Machine.calling ⟨[], [], [], 10⟩ spreadCall)
      ⟨⟨#[∅]⟩, 1, []⟩ (.pending ⟨[.value .truth, .value .nil,
        .call (.callable (.native (.host "spread"))) 2
          (Library.apply (.callable (.native (.host "spread"))) [.truth, .nil]),
        .call (.callable (.native (.primitive .list))) 1 spreadBody], [], [.nil], 10⟩) _ := ⟨8, rfl⟩
  have answered : ∀ w, Extension.host.Performs (.callable (.native (.host "spread")))
      [.truth, .nil] w (.ok (.stream ⟨[.value .truth, .value .nil], false⟩)) w :=
    fun w => ⟨2, rfl⟩
  have spread : ∀ w, Extension.host.Steps ⟨[.call (.callable (.native (.host "spread"))) 2
        (Library.apply (.callable (.native (.host "spread"))) [.truth, .nil]),
      .call (.callable (.native (.primitive .list))) 1 spreadBody], [.nil, .truth], [.nil], 10⟩ w _ w :=
    fun w => (answered w).step
  have run := Reaches.step entered (.step (steps_value.mpr ⟨rfl, rfl⟩)
    (.step (steps_value.mpr ⟨rfl, rfl⟩) (.step (spread _) (.step (steps_value.mpr ⟨rfl, rfl⟩)
      (.step (steps_value.mpr ⟨rfl, rfl⟩) .refl)))))
  have nothing := (leaves _ _ _ _ run _ _ _ rfl).2
  cases nothing

end Host

end CooperativeLisp

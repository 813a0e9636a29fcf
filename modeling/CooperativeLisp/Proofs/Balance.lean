import CooperativeLisp.Proofs.Adequate
import CooperativeLisp.Proofs.Regular
import CooperativeLisp.Proofs.Tasks

/-!
The frames that wait are balanced on the values of the machine throughout a run, unless the next of
them is a failure. Every stream that an invocation answers with counts as the one value that its
call stands for, so no call frame lacks arguments and no run ends without its value.
-/

namespace CooperativeLisp

variable {σ : Type}

/-- The frames that wait are balanced on the values of the machine, or a failure comes before all
of them. Behind a failure the frames of an expression that was compiled halfway may lack some. -/
def Machine.InBalance (m : Machine) : Prop :=
  (∃ e rest, m.frames = .error e :: rest) ∨ Balanced m.stack.length m.frames

/-- A stream in front of frames that take one more value keeps them balanced. -/
theorem Stream.Renders.inBalance {s : Stream} {r : Except Fault Resolved} {m : Machine}
    (renders : s.Renders r) (balanced : Balanced (m.stack.length + 1) m.frames) :
    (m.accept (.stream s)).InBalance := by
  cases r with
  | ok t =>
    right
    show Balanced m.stack.length (s.frames ++ m.frames)
    rw [renders.2]
    exact t.balanced_append balanced
  | error f =>
    obtain ⟨-, e, rest, frames, -⟩ := renders
    exact Or.inl ⟨e, rest ++ m.frames, by rw [Machine.accept, frames, List.cons_append]⟩

theorem Stream.Renders.start_inBalance {s : Stream} {r : Except Fault Resolved}
    (renders : s.Renders r) (cap : BacktraceCap) : (Machine.start s cap).InBalance := by
  have inBalance := renders.inBalance (m := ⟨[], [], [], max cap 1⟩) rfl
  rwa [Machine.accept, List.append_nil] at inBalance

namespace Host

variable {host : Host σ} {env : Environment} {e : Value} {s : Stream} {cap : BacktraceCap}
variable {m m' : Machine} {w w' : World σ} {n : Nat} {calls : List Invocation}

namespace Sound

theorem performs_renders (sound : host.Sound) {operation : Operation} {args : List Value}
    (performs : host.Performs operation args w (.ok (.stream s)) w') : ∃ r, s.Renders r := by
  obtain ⟨fuel, run⟩ := performs
  obtain ⟨r, renders, -⟩ := (sound.faithful fuel).perform sound run
  exact ⟨r, renders⟩

theorem compile_renders (sound : host.Sound) (compiled : host.Answers (·.compile env e) w s w') :
    ∃ r, s.Renders r := by
  obtain ⟨fuel, run⟩ := compiled
  obtain ⟨r, -, renders⟩ := (sound.faithful fuel).compile sound run
  exact ⟨r, renders⟩

end Sound

/-- Every frame keeps a machine in balance. -/
theorem Steps.inBalance (sound : host.Sound) (step : host.Steps m w (.pending m') w')
    (inBalance : m.InBalance) : m'.InBalance := by
  obtain ⟨frames, stack, trace, cap⟩ := m
  rcases inBalance with ⟨e, rest, failing⟩ | balanced
  · dsimp only at failing
    subst failing
    cases (steps_error.mp step).1
  cases frames with
  | nil => cases (steps_nil.mp step).1
  | cons f frames =>
    cases f with
    | value v =>
      obtain ⟨rfl, -⟩ := Machine.pending_of_settle (steps_value.mp step).1.symm
      exact Or.inr balanced
    | error e => exact balanced.elim
    | call operation argc origin =>
      obtain ⟨enough, balanced⟩ := balanced
      obtain ⟨answer, performs, leads⟩ := (steps_call enough).mp step
      have height : (stack.drop argc).length = stack.length - argc := List.length_drop ..
      rw [← height] at balanced
      obtain e | v | s := answer
      · cases leads
      · obtain ⟨rfl, -⟩ := Machine.pending_of_settle leads.symm
        exact Or.inr balanced
      · obtain ⟨rfl, -⟩ := Machine.pending_of_settle leads.symm
        obtain ⟨r, renders⟩ := sound.performs_renders performs
        exact renders.inBalance balanced

/-- Every machine that the run of an expression comes to is in balance. -/
theorem Sound.inBalance (sound : host.Sound) (compiled : host.Answers (·.compile env e) w s w')
    {w₁ : World σ} (reach : host.Reaches n calls (.pending (.start s cap)) w' (.pending m) w₁) :
    m.InBalance := by
  obtain ⟨r, renders⟩ := sound.compile_renders compiled
  exact reach.invariant (fun step => step.inBalance sound) (renders.start_inBalance cap)

theorem Plain.evaluateOnce_kind (plain : host.Plain) {error : Error}
    (answers : host.Answers (·.evaluateOnce env e cap) w (.error error) w') :
    error.fault.kind ≠ .internal :=
  (plain.sound.direct answers).regular plain

/-- Over a plain host the internal failures of the engine are out of reach. At every point of the
run of an expression the frames that wait are balanced or a failure comes first, and neither the
synchronous evaluation nor a task, however it is driven, ends with an internal failure. -/
theorem plain_never_internal (plain : host.Plain) (env : Environment) (e : Value)
    (cap : BacktraceCap) (w : World σ) :
    (∀ s w₁ n calls m w₂, host.Answers (·.compile env e) w s w₁ →
      host.Reaches n calls (.pending (.start s cap)) w₁ (.pending m) w₂ → m.InBalance) ∧
    (∀ error w', host.Answers (·.evaluateOnce env e cap) w (.error error) w' →
      error.fault.kind ≠ .internal) ∧
    ∀ s w₁ plan budget batch error w', host.Answers (·.compile env e) w s w₁ →
      host.Answers (·.follow plan (.start (.start s cap) budget batch)) w₁ (.error error) w' →
      error.fault.kind ≠ .internal := by
  refine ⟨?_, ?_, ?_⟩
  · intro s w₁ n calls m w₂ compiled reach
    exact plain.sound.inBalance compiled reach
  · intro error w' answers
    exact plain.evaluateOnce_kind answers
  · intro s w₁ plan budget batch error w' compiled followed
    have ends := (follow_iff_ends plan budget batch).mp followed
    exact plain.evaluateOnce_kind (evaluateOnce_iff.mpr ⟨s, w₁, compiled, ends⟩)

/-- A host whose natives call their first argument with the others, and whose forms and expanders
stand for the application of their operands. -/
def applying : Host Unit where
  native _ args := ExceptT.mk (pure (Library.call args))
  form _ operands env := return .compile env (.list operands)
  expander _ operands _ := return .list operands

theorem applying_plain : applying.Plain := by
  refine ⟨fun {_ args _ _ _} replied => ?_, fun {_ _ _ _ _ _} answered => ?_, nofun⟩
  · cases replied
    exact Library.call_orderly args
  · cases answered
    exact trivial

theorem plain_never_internal_applying :
    let c : Callable := .native (.host "call")
    let e := Library.apply (.callable c) [.nil]
    applying.Plain ∧ Machine.InBalance ⟨[.call (.callable c) 1 e], [.nil], [], 10⟩ ∧
      ∃ error, applying.Answers (·.evaluateOnce ⟨0, []⟩ e 10) ⟨{}, 0, ()⟩ (.error error)
        ⟨{}, 0, ()⟩ ∧ error.fault.kind ≠ .internal := by
  intro c e
  have never := plain_never_internal applying_plain ⟨0, []⟩ e 10 ⟨{}, 0, ()⟩
  have step : applying.Steps (.start ⟨[.value .nil, .call (.callable c) 1 e], false⟩ 10) ⟨{}, 0, ()⟩
      (.pending ⟨[.call (.callable c) 1 e], [.nil], [], 10⟩) ⟨{}, 0, ()⟩ := ⟨0, rfl⟩
  refine ⟨applying_plain, never.1 _ _ _ _ _ _ ⟨8, rfl⟩ step.reaches, _, ⟨8, rfl⟩, ?_⟩
  exact never.2.1 _ _ ⟨8, rfl⟩

end Host

end CooperativeLisp

import Mathlib.Algebra.Order.Floor.Div
import CooperativeLisp.Proofs.Tasks

/-!
The life of a task. Where the synchronous run of a stream ends after so many frames, a task with no
budget needs as many calls as the frames fill batches, and a task whose budget is never used up needs
one. Main statement: all calls but the last of these report that the run goes on, the last one hands
out its result, and those behind it change nothing.
-/

namespace CooperativeLisp

variable {σ : Type}

/-- A call to a task that runs one slice: it is resumed, or polled with a waker. -/
inductive Turn where
  | resume
  | poll

/-- How often the waker is called if the run goes on. A resumption has none. -/
def Turn.wakes : Turn → Nat
  | resume => 0
  | poll => 1

namespace Engine

/-- Makes one call to a task. -/
def turn (g : Engine σ) (clock : Clock) (t : Task) : Turn → Effect σ (Poll × Task)
  | .resume => do
    let (progress, t) ← g.resume clock t
    return (⟨progress, 0⟩, t)
  | .poll => g.poll clock t

/-- Makes calls to a task one after the other, each of them with a clock of its own. -/
def turns (g : Engine σ) : List (Turn × Clock) → Task → Effect σ (List Poll × Task)
  | [], t => return ([], t)
  | call :: calls, t => do
    let (polled, t) ← g.turn call.2 t call.1
    let (more, t) ← g.turns calls t
    return (polled :: more, t)

end Engine

/-- What the calls to a task report whose run ends with the slice of this number. -/
def Task.reports (total : Nat) (r : Except Error Value) (calls : List (Turn × Clock)) : List Poll :=
  calls.mapIdx fun before call =>
    if before + 1 < total then ⟨.yielded, call.1.wakes⟩
    else if before + 1 = total then ⟨.done r, 0⟩
    else ⟨.done (.error (Fault.internal .resumedAfterCompletion)), 0⟩

/-- Whatever calls are made to a task, they report that the run goes on until the call of this number
hands out the result. Each call counts as a slice up to that one; the task is finished from that one
on, and neither it nor the world changes any more. -/
def Host.Completes (host : Host σ) (t : Task) (w : World σ) (turns : List (Turn × Clock)) (total : Nat)
    (r : Except Error Value) (w' : World σ) : Prop :=
  ∃ t' w₁, (∀ answer w₂, host.Answers (·.turns turns t) w answer w₂ ↔
      answer = (Task.reports total r turns, t') ∧ w₂ = w₁) ∧
    t'.slices = min turns.length total ∧ (t'.isFinished = true ↔ total ≤ turns.length) ∧
    (total ≤ turns.length → w₁ = w' ∧ t' = { t with machine? := Option.none, slices := total })

/-- A run ends after so many frames have been executed. Without any it ends at once. -/
inductive Host.Consumes (host : Host σ) (m : Machine) (w : World σ) :
    Nat → Except Error Value → World σ → Prop
  | nothing : m.frames = [] → Consumes host m w 0 m.finish w
  | frames {n : Nat} {calls : List Invocation} {r : Except Error Value} {w' : World σ} :
      m.frames ≠ [] → host.Reaches n calls (.pending m) w (.done r) w' → Consumes host m w n r w'

namespace Engine

variable {g h : Engine σ}

/-- The report of a call, as a function of what the slice led to. -/
def turned (call : Turn) : Progress × Task → Poll × Task
  | (.yielded, t) => (⟨.yielded, call.wakes⟩, t)
  | (.done r, t) => (⟨.done r, 0⟩, t)

theorem turn_eq (g : Engine σ) (clock : Clock) (t : Task) (call : Turn) :
    g.turn clock t call = g.resume clock t >>= fun answer => pure (turned call answer) := by
  cases call <;>
  · refine congrArg (g.resume clock t >>= ·) (funext fun answer => ?_)
    obtain ⟨progress, t⟩ := answer
    cases progress <;> rfl

theorem turns_cons (g : Engine σ) (call : Turn × Clock) (calls : List (Turn × Clock)) (t : Task) :
    g.turns (call :: calls) t = g.turn call.2 t call.1 >>= fun answer =>
      g.turns calls answer.2 >>= fun more => pure (answer.1 :: more.1, more.2) := rfl

namespace Below

theorem turn (below : g.Below h) (clock : Clock) (t : Task) (call : Turn) :
    (g.turn clock t call).Below (h.turn clock t call) := by
  rw [turn_eq, turn_eq]
  exact (below.resume clock t).bind fun _ => .refl _

theorem turns (below : g.Below h) (calls : List (Turn × Clock)) (t : Task) :
    (g.turns calls t).Below (h.turns calls t) := by
  induction calls generalizing t with
  | nil => exact .refl _
  | cons call calls ih =>
    rw [turns_cons, turns_cons]
    exact (below.turn call.2 t call.1).bind fun answer => (ih answer.2).bind fun _ => .refl _

end Below

end Engine

namespace Host

variable {host : Host σ} {m : Machine} {w w' w₁ : World σ} {n total batch budget round : Nat}
variable {calls : List Invocation} {r : Except Error Value} {clock : Clock} {t : Task}
variable {allowed : Clock → Prop}

/-! ### Frames -/

/-- A run that ends takes a step even if there are no frames to execute. -/
theorem Consumes.reaches (consumes : host.Consumes m w n r w') :
    ∃ calls, host.Reaches (max n 1) calls (.pending m) w (.done r) w' := by
  cases consumes with
  | nothing none =>
    obtain ⟨frames, stack, trace, cap⟩ := m
    dsimp only at none
    subst none
    exact ⟨_, (steps_nil.mpr ⟨rfl, rfl⟩).reaches⟩
  | @frames _ calls _ _ _ reach =>
    have some : 1 ≤ n := by
      cases reach
      omega
    rw [Nat.max_eq_left some]
    exact ⟨calls, reach⟩

/-- A slice whose budget is never used up runs to the end. -/
theorem Reaches.whole_slice (reach : host.Reaches n calls (.pending m) w (.done r) w')
    (positive : 0 < batch) (never : ∀ round, clock round < budget) :
    host.Slice clock budget batch round n calls m w (.done r) w' := by
  induction n using Nat.strongRecOn generalizing calls m w round with
  | ind n ih =>
    by_cases within : n ≤ batch
    · exact .ended reach within
    · obtain ⟨c, w₁, first, rest, before, behind, rfl⟩ := reach.split (by omega : batch ≤ n)
      cases c with
      | done result =>
        obtain ⟨none, -⟩ := behind.of_done
        omega
      | pending m₁ =>
        have whole := Slice.further before (never round) (ih (n - batch) (by omega) behind)
        rwa [Nat.add_sub_cancel' (by omega)] at whole

/-! ### Calls -/

/-- So many calls are due to a task until its run has ended, whatever allowed clocks they have. All but
the last report that the run goes on. -/
inductive Due (host : Host σ) (allowed : Clock → Prop) (r : Except Error Value) (w' : World σ) :
    Nat → Task → World σ → Prop
  | finished {t : Task} : t.machine? = .none → Due host allowed r w' 0 t w'
  | last {t : Task} {w : World σ} : t.isFinished = false →
      (∀ clock, allowed clock → host.Answers (·.resume clock t) w (t.after (.done r)) w') →
      Due host allowed r w' 1 t w
  | more {t : Task} {m : Machine} {w w₁ : World σ} {left : Nat} : t.isFinished = false →
      (∀ clock, allowed clock → host.Answers (·.resume clock t) w (t.after (.pending m)) w₁) →
      Due host allowed r w' (left + 1) (t.after (.pending m)).2 w₁ →
      Due host allowed r w' (left + 2) t w

/-- Without a budget a slice is a batch. -/
theorem Reaches.due (reach : host.Reaches n calls (.pending m) w (.done r) w')
    (positive : 0 < batch) (slices : Nat) :
    host.Due (fun _ => True) r w' ((n - 1) / batch + 1) ⟨some m, 0, batch, slices⟩ w := by
  induction n using Nat.strongRecOn generalizing calls m w slices with
  | ind n ih =>
    by_cases within : n ≤ batch
    · have first : (n - 1) / batch = 0 := Nat.div_eq_of_lt (by omega)
      rw [first]
      exact .last rfl fun clock _ => resume_iff.mpr ⟨_, _, _, .ended reach within, rfl⟩
    · obtain ⟨c, w₁, first, rest, before, behind, rfl⟩ := reach.split (by omega : batch ≤ n)
      cases c with
      | done result =>
        obtain ⟨none, -⟩ := behind.of_done
        omega
      | pending m₁ =>
        have count : (n - 1) / batch = (n - batch - 1) / batch + 1 := by
          rw [← Nat.add_div_right _ positive]
          congr 1
          omega
        rw [count]
        refine .more rfl (fun clock _ => ?_) (ih (n - batch) (by omega) behind (slices + 1))
        exact resume_iff.mpr ⟨_, _, _, .stopped before (Nat.zero_le _), rfl⟩

theorem Reaches.due_once (reach : host.Reaches n calls (.pending m) w (.done r) w')
    (positive : 0 < batch) (slices : Nat) :
    host.Due (fun clock => ∀ round, clock round < budget) r w' 1 ⟨some m, budget, batch, slices⟩ w :=
  .last rfl fun _ never => resume_iff.mpr ⟨_, _, _, reach.whole_slice positive never, rfl⟩

theorem turn_of_resume {answer : Progress × Task} (call : Turn)
    (resumed : host.Answers (·.resume clock t) w answer w') :
    host.Answers (·.turn clock t call) w (Engine.turned call answer) w' := by
  simp only [Engine.turn_eq]
  exact answers_map.mpr ⟨answer, resumed, rfl⟩

theorem turns_of_turn {call : Turn × Clock} {turns : List (Turn × Clock)} {polled : Poll}
    {more : List Poll} {t₁ t₂ : Task}
    (first : host.Answers (·.turn call.2 t call.1) w (polled, t₁) w₁)
    (rest : host.Answers (·.turns turns t₁) w₁ (more, t₂) w') :
    host.Answers (·.turns (call :: turns) t) w (polled :: more, t₂) w' := by
  simp only [Engine.turns_cons]
  have steady : Engine.Steady fun g : Engine σ => g.turn call.2 t call.1 :=
    fun below => below.turn ..
  have steadyRest : ∀ answer : Poll × Task, Engine.Steady fun g : Engine σ =>
      g.turns turns answer.2 >>= fun more => pure (answer.1 :: more.1, more.2) :=
    fun answer _ _ below => (below.turns turns answer.2).bind fun _ => .refl _
  exact (answers_bind steady steadyRest).mpr ⟨_, _, first, answers_map.mpr ⟨_, rest, rfl⟩⟩

theorem reports_cons (total : Nat) (r : Except Error Value) (call : Turn × Clock)
    (turns : List (Turn × Clock)) : Task.reports total r (call :: turns) =
      (if 1 < total then ⟨.yielded, call.1.wakes⟩ else if 1 = total then ⟨.done r, 0⟩
        else ⟨.done (.error (Fault.internal .resumedAfterCompletion)), 0⟩) ::
        Task.reports (total - 1) r turns := by
  rw [Task.reports, List.mapIdx_cons]
  congr 2
  funext before call
  have goes : before + 1 + 1 < total ↔ before + 1 < total - 1 := by omega
  have ends : before + 1 + 1 = total ↔ before + 1 = total - 1 := by omega
  simp only [goes, ends]

/-- Calls to a task report what is due to it, by induction on the calls. -/
theorem Due.turns (due : host.Due allowed r w' total t w) (turns : List (Turn × Clock))
    (fits : ∀ call ∈ turns, allowed call.2) :
    ∃ t' w₁, host.Answers (·.turns turns t) w (Task.reports total r turns, t') w₁ ∧
      t'.slices = t.slices + min turns.length total ∧
      (turns.length < total → t'.isFinished = false) ∧
      (total ≤ turns.length → w₁ = w' ∧
        t' = { t with machine? := Option.none, slices := t.slices + total }) := by
  induction turns generalizing total t w with
  | nil =>
    refine ⟨t, w, answers_pure.mpr ⟨rfl, rfl⟩, rfl, fun some => ?_, fun none => ?_⟩
    · cases due with
      | finished => exact absurd some (Nat.lt_irrefl 0)
      | last unfinished => exact unfinished
      | more unfinished => exact unfinished
    · cases due with
      | finished ended => exact ⟨rfl, by rw [← ended]; rfl⟩
      | last => exact absurd none (by simp)
      | more => exact absurd none (by simp)
  | cons call turns ih =>
    obtain ⟨allows, fits⟩ := List.forall_mem_cons.mp fits
    cases due with
    | finished ended =>
      have resumed : host.Answers (·.resume call.2 t) w'
          (.done (.error (Fault.internal .resumedAfterCompletion)), t) w' := by
        unfold Engine.resume
        rw [ended]
        exact answers_pure.mpr ⟨rfl, rfl⟩
      obtain ⟨t', w₁, answers, count, -, after⟩ := ih (.finished ended) fits
      obtain ⟨same, left⟩ := after (Nat.zero_le _)
      refine ⟨t', w₁, ?_, by simpa using count, nofun, fun _ => ⟨same, left⟩⟩
      rw [reports_cons]
      exact turns_of_turn (turn_of_resume call.1 resumed) answers
    | last unfinished resumes =>
      obtain ⟨t', w₁, answers, count, -, after⟩ := ih (.finished (t := (t.after (.done r)).2) rfl) fits
      obtain ⟨same, left⟩ := after (Nat.zero_le _)
      refine ⟨t', w₁, ?_, ?_, fun few => ?_, fun _ => ⟨same, left⟩⟩
      · rw [reports_cons]
        exact turns_of_turn (turn_of_resume call.1 (resumes call.2 allows)) answers
      · rw [count]
        simp [Task.after]
      · simp at few
    | @more _ m _ w₁ left unfinished resumes rest =>
      obtain ⟨t', w₂, answers, count, goes, after⟩ := ih rest fits
      refine ⟨t', w₂, ?_, ?_, fun few => ?_, fun all => ?_⟩
      · rw [reports_cons, if_pos (by omega)]
        exact turns_of_turn (turn_of_resume call.1 (resumes call.2 allows)) answers
      · rw [count, List.length_cons]
        simp only [Task.after]
        omega
      · rw [List.length_cons] at few
        exact goes (by omega)
      · rw [List.length_cons] at all
        obtain ⟨same, ended⟩ := after (by omega)
        refine ⟨same, ended.trans ?_⟩
        simp only [Task.after, Task.mk.injEq, true_and]
        omega

theorem Due.completes (due : host.Due allowed r w' total t w) (fresh : t.slices = 0)
    {turns : List (Turn × Clock)} (fits : ∀ call ∈ turns, allowed call.2) :
    host.Completes t w turns total r w' := by
  obtain ⟨t', w₁, answers, count, goes, ends⟩ := due.turns turns fits
  rw [fresh, Nat.zero_add] at count
  rw [fresh, Nat.zero_add] at ends
  have steady : Engine.Steady fun g : Engine σ => g.turns turns t := fun below => below.turns turns t
  refine ⟨t', w₁, fun answer w₂ => ⟨fun other => ?_, ?_⟩, count, ⟨fun finished => ?_, ?_⟩, ends⟩
  · exact Answers.unique steady other answers
  · rintro ⟨rfl, rfl⟩
    exact answers
  · by_contra few
    rw [goes (Nat.lt_of_not_le few)] at finished
    cases finished
  · intro all
    rw [(ends all).2]
    rfl

theorem ceil_batches (n : Nat) (positive : 0 < batch) :
    n ⌈/⌉ batch - 1 + 1 = (max n 1 - 1) / batch + 1 := by
  rw [Nat.ceilDiv_eq_add_pred_div]
  cases n with
  | zero => simp [Nat.div_eq_of_lt (Nat.sub_lt positive Nat.zero_lt_one)]
  | succ n =>
    have shifted : n + 1 + batch - 1 = n + batch := by omega
    rw [shifted, Nat.add_div_right n positive]
    simp

/-- Let the synchronous run of a stream end after `n` frames. Without a budget, all calls to a task of
the stream up to one for each batch that the frames fill report that the run goes on, but for the last
of them; if the budget is never used up, the first call is the last. The last one hands out the result
of the run. Each call that is polled while the run goes on wakes the waker once, the others do not; the
slices are the calls up to the last one, and what is called behind it fails and changes nothing. -/
theorem task_lifecycle {s : Stream} {cap : BacktraceCap}
    (run : host.Consumes (.start s cap) w n r w') (batch : Nat) :
    host.Answers (·.execute s cap) w r w' ∧
    (∀ turns, host.Completes (.start (.start s cap) 0 batch) w turns
      (n ⌈/⌉ max batch 1 - 1 + 1) r w') ∧
    ∀ budget turns, (∀ call ∈ turns, ∀ round, call.2 round < budget) →
      host.Completes (.start (.start s cap) budget batch) w turns 1 r w' := by
  have positive : 0 < max batch 1 := Nat.lt_of_lt_of_le Nat.zero_lt_one (Nat.le_max_right ..)
  obtain ⟨calls, reach⟩ := run.reaches
  refine ⟨execute_iff_ends.mpr ⟨_, _, reach⟩, fun turns => ?_, fun budget turns never => ?_⟩
  · rw [ceil_batches n positive]
    exact (reach.due positive 0).completes rfl fun _ _ => trivial
  · exact (reach.due_once positive 0).completes rfl never

/-- Four frames of which the last one fails are two batches of two, so the first of three calls is the
only one that wakes. -/
theorem task_lifecycle_failing :
    let list : Frame := .call (.callable (.native (.primitive .list))) 2 .nil
    let s : Stream := ⟨[.value .nil, .value .truth, list, .error Fault.divisionByZero], true⟩
    let w : World Unit := { host := () }
    let r : Except Error Value := .error ⟨.divisionByZero, [.nil]⟩
    let turns : List (Turn × Clock) := [(.poll, .still), (.poll, .still), (.resume, .still)]
    (Host.none Unit).Consumes (.start s 10) w 4 r w ∧
      (Host.none Unit).Completes (.start (.start s 10) 0 2) w turns 2 r w := by
  intro list s w r turns
  have step : ∀ {m a}, (Engine.withFuel (Host.none Unit) 9).step m w = some (a, w) →
      (Host.none Unit).Steps m w a w := fun run => ⟨9, run⟩
  have run : (Host.none Unit).Consumes (.start s 10) w 4 r w :=
    .frames (List.cons_ne_nil _ _)
      (.step (step rfl) (.step (step rfl) (.step (step rfl) (.step (step rfl) .refl))))
  exact ⟨run, (task_lifecycle run 2).2.1 turns⟩

end Host

end CooperativeLisp

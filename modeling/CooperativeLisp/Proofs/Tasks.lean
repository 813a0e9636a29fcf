import CooperativeLisp.Proofs.Slices

/-!
Tasks. However a task is driven, its slices together are the run of its stream, cut into pieces:
they end as it ends, in the same world and with the same invocations, and they come to an end if
and only if it does.
-/

namespace CooperativeLisp

variable {σ : Type}

/-- A call that drives a task. -/
inductive Call where
  | resume
  | poll
  | complete

/-- How a task is driven: the call and the clock of each of its slices. -/
structure Plan where
  call : Nat → Call
  clocks : Nat → Clock

namespace Engine

/-- Makes one call to a task. -/
def drive (g : Engine σ) (clocks : Nat → Clock) (t : Task) : Call → Effect σ (Progress × Task)
  | .resume => g.resume (clocks t.slices) t
  | .poll => do
    let (polled, t) ← g.poll (clocks t.slices) t
    return (polled.progress, t)
  | .complete => do
    let result ← g.complete clocks t
    return (.done result, { t with machine? := none })

/-- Follows a plan until the run of the task ends. -/
def followWithin (g : Engine σ) (plan : Plan) : Nat → Task → Effect σ (Except Error Value)
  | 0, _ => Effect.exhausted
  | rounds + 1, t => do
    match ← g.drive plan.clocks t (plan.call t.slices) with
    | (.yielded, t) => g.followWithin plan rounds t
    | (.done result, _) => return result

/-- Follows a plan until the run of the task ends. -/
def follow (g : Engine σ) (plan : Plan) (t : Task) : Effect σ (Except Error Value) :=
  g.followWithin plan g.fuel t

/-- What follows a call of a plan. -/
def followRest (g : Engine σ) (plan : Plan) (rounds : Nat) :
    Progress × Task → Effect σ (Except Error Value)
  | (.yielded, t) => g.followWithin plan rounds t
  | (.done result, _) => return result

theorem followWithin_succ (g : Engine σ) (plan : Plan) (rounds : Nat) (t : Task) :
    g.followWithin plan (rounds + 1) t =
      g.drive plan.clocks t (plan.call t.slices) >>= g.followRest plan rounds := by
  refine congrArg (g.drive plan.clocks t (plan.call t.slices) >>= ·) (funext fun answer => ?_)
  obtain ⟨progress, t⟩ := answer
  cases progress <;> rfl

theorem completeWithin_eq_followWithin (g : Engine σ) (clocks : Nat → Clock) (rounds : Nat)
    (t : Task) :
    g.completeWithin clocks rounds t = g.followWithin ⟨fun _ => .resume, clocks⟩ rounds t := by
  induction rounds generalizing t with
  | zero => rfl
  | succ rounds ih =>
    refine congrArg (g.resume (clocks t.slices) t >>= ·) (funext fun answer => ?_)
    obtain ⟨progress, t⟩ := answer
    cases progress with
    | yielded => exact ih t
    | done result => rfl

/-- Polling is resuming, but for the waker. -/
theorem drive_poll (g : Engine σ) (clocks : Nat → Clock) (t : Task) :
    g.drive clocks t .poll = g.resume (clocks t.slices) t := by
  funext w
  show ((g.resume (clocks t.slices) t w).bind _).bind _ = _
  cases g.resume (clocks t.slices) t w with
  | none => rfl
  | some answer =>
    obtain ⟨⟨progress, t⟩, w⟩ := answer
    cases progress <;> rfl

namespace Below

variable {g h : Engine σ}

theorem resume (below : g.Below h) (clock : Clock) (t : Task) :
    (g.resume clock t).Below (h.resume clock t) := by
  unfold Engine.resume
  split
  · exact .refl _
  · exact (below.runSlice clock _ _ below.fuel 0 _).bind fun _ => .refl _

theorem completeWithin (below : g.Below h) (clocks : Nat → Clock) {n k : Nat} (less : n ≤ k)
    (t : Task) : (g.completeWithin clocks n t).Below (h.completeWithin clocks k t) := by
  induction n generalizing k t with
  | zero => exact .exhausted _
  | succ n ih =>
    obtain _ | k := k
    · exact absurd less (Nat.not_succ_le_zero n)
    refine (below.resume (clocks t.slices) t).bind fun answer => ?_
    obtain ⟨progress, t⟩ := answer
    cases progress with
    | yielded => exact ih (Nat.le_of_succ_le_succ less) t
    | done result => exact .refl _

theorem drive (below : g.Below h) (clocks : Nat → Clock) (t : Task) (c : Call) :
    (g.drive clocks t c).Below (h.drive clocks t c) := by
  cases c with
  | resume => exact below.resume _ t
  | poll =>
    rw [drive_poll, drive_poll]
    exact below.resume _ t
  | complete => exact (below.completeWithin clocks below.fuel t).bind fun _ => .refl _

theorem followWithin (below : g.Below h) (plan : Plan) {n k : Nat} (less : n ≤ k) (t : Task) :
    (g.followWithin plan n t).Below (h.followWithin plan k t) := by
  induction n generalizing k t with
  | zero => exact .exhausted _
  | succ n ih =>
    obtain _ | k := k
    · exact absurd less (Nat.not_succ_le_zero n)
    refine (below.drive plan.clocks t (plan.call t.slices)).bind fun answer => ?_
    obtain ⟨progress, t⟩ := answer
    cases progress with
    | yielded => exact ih (Nat.le_of_succ_le_succ less) t
    | done result => exact .refl _

theorem followRest (below : g.Below h) (plan : Plan) {n k : Nat} (less : n ≤ k)
    (answer : Progress × Task) :
    (g.followRest plan n answer).Below (h.followRest plan k answer) := by
  obtain ⟨progress, t⟩ := answer
  cases progress with
  | yielded => exact below.followWithin plan less t
  | done result => exact .refl _

end Below

end Engine

namespace Host

variable {host : Host σ} {clocks : Nat → Clock} {budget batch i k n : Nat} {m : Machine}
variable {calls : List Invocation} {w w' : World σ} {r : Except Error Value}

/-- So many slices, of which the first has the number `i`, take a run to its end. -/
inductive Sliced (host : Host σ) (clocks : Nat → Clock) (budget batch : Nat) :
    Nat → Nat → Nat → List Invocation → Machine → World σ → Except Error Value → World σ → Prop
  | last {i n : Nat} {calls : List Invocation} {m : Machine} {w w' : World σ}
      {r : Except Error Value} : host.Slice (clocks i) budget batch 0 n calls m w (.done r) w' →
      Sliced host clocks budget batch i 1 n calls m w r w'
  | more {i k n n' : Nat} {calls more : List Invocation} {m m₁ : Machine} {w w₁ w' : World σ}
      {r : Except Error Value} :
      host.Slice (clocks i) budget batch 0 n calls m w (.pending m₁) w₁ →
      Sliced host clocks budget batch (i + 1) k n' more m₁ w₁ r w' →
      Sliced host clocks budget batch i (k + 1) (n + n') (calls ++ more) m w r w'

theorem Sliced.reaches (sliced : host.Sliced clocks budget batch i k n calls m w r w') :
    host.Reaches n calls (.pending m) w (.done r) w' := by
  induction sliced with
  | last slice => exact slice.reaches
  | more slice _ ih => exact slice.reaches.trans ih

/-- Whatever the clocks say, the slices of a run are its frames, cut into pieces. -/
theorem sliced_iff_reaches (positive : 0 < batch) :
    (∃ k, host.Sliced clocks budget batch i k n calls m w r w') ↔
      host.Reaches n calls (.pending m) w (.done r) w' := by
  constructor
  · rintro ⟨k, sliced⟩
    exact sliced.reaches
  · intro reach
    induction n using Nat.strongRecOn generalizing i calls m w with
    | ind n ih =>
      obtain ⟨k, more, a, w₁, slice⟩ := reach.slice positive (clocks i) budget 0
      obtain ⟨j, rest, rfl, rfl, behind⟩ := slice.reaches.rest reach
      cases a with
      | done result =>
        obtain ⟨rfl, rfl, same, rfl⟩ := behind.of_done
        cases same
        rw [Nat.add_zero, List.append_nil]
        exact ⟨1, .last slice⟩
      | pending m₁ =>
        have shorter : j < k + j := Nat.lt_add_of_pos_left (slice.progress positive)
        obtain ⟨count, sliced⟩ := ih j shorter behind (i := i + 1)
        exact ⟨count + 1, .more slice sliced⟩

theorem resume_iff {clock : Clock} {answer : Progress × Task} :
    host.Answers (·.resume clock ⟨some m, budget, batch, i⟩) w answer w' ↔
      ∃ a n calls, host.Slice clock budget batch 0 n calls m w a w' ∧
        answer = Task.after ⟨some m, budget, batch, i⟩ a := by
  refine answers_map.trans ⟨?_, ?_⟩
  · rintro ⟨a, ran, rfl⟩
    obtain ⟨n, calls, slice⟩ := slice_iff.mp ran
    exact ⟨a, n, calls, slice, rfl⟩
  · rintro ⟨a, n, calls, slice, rfl⟩
    exact ⟨a, slice_iff.mpr ⟨n, calls, slice⟩, rfl⟩

/-- A call takes the run of a task a slice further or to its end, and to its end only through its
slices. -/
structure Drives (host : Host σ) (clocks : Nat → Clock) (budget batch : Nat) (c : Call) :
    Prop where
  sound : ∀ {i m w p t w'},
    host.Answers (·.drive clocks ⟨some m, budget, batch, i⟩ c) w (p, t) w' →
      (∃ r k n calls, p = .done r ∧ host.Sliced clocks budget batch i k n calls m w r w') ∨
      ∃ m₁ n calls, p = .yielded ∧ t = ⟨some m₁, budget, batch, i + 1⟩ ∧
        host.Slice (clocks i) budget batch 0 n calls m w (.pending m₁) w'
  live : ∀ {i k n calls m w r w'}, host.Sliced clocks budget batch i k n calls m w r w' →
      (∃ t, host.Answers (·.drive clocks ⟨some m, budget, batch, i⟩ c) w (.done r, t) w') ∨
      ∃ j n calls m₁ w₁, j < k ∧ host.Sliced clocks budget batch (i + 1) j n calls m₁ w₁ r w' ∧
        host.Answers (·.drive clocks ⟨some m, budget, batch, i⟩ c) w
          (.yielded, ⟨some m₁, budget, batch, i + 1⟩) w₁

theorem drives_resume : host.Drives clocks budget batch .resume := by
  constructor
  · intro i m w p t w' answers
    obtain ⟨a, n, calls, slice, same⟩ := resume_iff.mp answers
    cases a with
    | pending m₁ =>
      cases same
      exact Or.inr ⟨m₁, n, calls, rfl, rfl, slice⟩
    | done r =>
      cases same
      exact Or.inl ⟨r, 1, n, calls, rfl, .last slice⟩
  · intro i k n calls m w r w' sliced
    cases sliced with
    | last slice => exact Or.inl ⟨_, resume_iff.mpr ⟨_, _, _, slice, rfl⟩⟩
    | more slice rest =>
      exact Or.inr ⟨_, _, _, _, _, Nat.lt_succ_self _, rest, resume_iff.mpr ⟨_, _, _, slice, rfl⟩⟩

/-- Following a plan runs the slices of the task, if each of its calls does. -/
theorem follow_iff_sliced {plan : Plan}
    (drives : ∀ i, host.Drives plan.clocks budget batch (plan.call i)) :
    host.Answers (·.follow plan ⟨some m, budget, batch, i⟩) w r w' ↔
      ∃ k n calls, host.Sliced plan.clocks budget batch i k n calls m w r w' := by
  constructor
  · rintro ⟨fuel, run⟩
    change (Engine.withFuel host fuel).followWithin plan _ _ w = _ at run
    generalize (Engine.withFuel host fuel).fuel = rounds at run
    induction rounds generalizing i m w with
    | zero => exact absurd run Effect.exhausted_ne_some
    | succ rounds ih =>
      rw [Engine.followWithin_succ] at run
      obtain ⟨⟨p, t⟩, w₁, atCall, run⟩ := Effect.bind_eq_some.mp run
      obtain ⟨r', k, n, calls, rfl, sliced⟩ | ⟨m₁, n, calls, rfl, rfl, slice⟩ :=
        (drives i).sound ⟨fuel, atCall⟩
      · obtain ⟨rfl, rfl⟩ := Effect.pure_eq_some.mp run
        exact ⟨k, n, calls, sliced⟩
      · obtain ⟨k, n', more, sliced⟩ := ih run
        exact ⟨_, _, _, .more slice sliced⟩
  · rintro ⟨k, n, calls, sliced⟩
    have loop : ∀ {i m w}, host.Answers (·.follow plan ⟨some m, budget, batch, i⟩) w r w' ↔
        ∃ answer w₁, host.Answers
          (·.drive plan.clocks ⟨some m, budget, batch, i⟩ (plan.call i)) w answer w₁ ∧
          host.Answers (fun g => g.followRest plan g.fuel answer) w₁ r w' := fun {i m w} =>
      answers_loop (fun n g => g.followWithin plan n ⟨some m, budget, batch, i⟩)
        (fun _ g => g.drive plan.clocks ⟨some m, budget, batch, i⟩ (plan.call i))
        (fun answer n g => g.followRest plan n answer)
        (fun less below => below.followWithin plan less _) (fun _ below => below.drive ..)
        (fun _ _ _ _ _ less below => below.followRest plan less _)
        (fun _ => rfl) fun n g => g.followWithin_succ plan n _
    induction k using Nat.strongRecOn generalizing i n calls m w with
    | ind k ih =>
      obtain ⟨t, answers⟩ | ⟨j, n', more, m₁, w₁, less, rest, answers⟩ := (drives i).live sliced
      · exact loop.mpr ⟨_, _, answers, answers_pure.mpr ⟨rfl, rfl⟩⟩
      · exact loop.mpr ⟨_, _, answers, ih j less _ _ rest⟩

theorem complete_iff_sliced : host.Answers (·.complete clocks ⟨some m, budget, batch, i⟩) w r w' ↔
    ∃ k n calls, host.Sliced clocks budget batch i k n calls m w r w' := by
  unfold Engine.complete
  simp only [Engine.completeWithin_eq_followWithin]
  exact follow_iff_sliced fun _ => drives_resume

/-- Every call drives a task, whether it resumes it, polls it or completes it. -/
theorem drives (c : Call) : host.Drives clocks budget batch c := by
  cases c with
  | resume => exact drives_resume
  | poll =>
    constructor
    · intro i m w p t w' answers
      simp only [Engine.drive_poll] at answers
      exact drives_resume.sound answers
    · intro i k n calls m w r w' sliced
      simp only [Engine.drive_poll]
      exact drives_resume.live sliced
  | complete =>
    have completes : ∀ {t answer w w'}, host.Answers (·.drive clocks t .complete) w answer w' ↔
        ∃ r, host.Answers (·.complete clocks t) w r w' ∧
          answer = (Progress.done r, { t with machine? := Option.none }) := answers_map
    constructor
    · intro i m w p t w' answers
      obtain ⟨r, completed, same⟩ := completes.mp answers
      obtain ⟨rfl, -⟩ := Prod.mk.inj same
      obtain ⟨k, n, calls, sliced⟩ := complete_iff_sliced.mp completed
      exact Or.inl ⟨r, k, n, calls, rfl, sliced⟩
    · intro i k n calls m w r w' sliced
      have completed := complete_iff_sliced.mpr ⟨k, n, calls, sliced⟩
      exact Or.inl ⟨_, completes.mpr ⟨r, completed, rfl⟩⟩

/-- A task ends as its run ends, however it is driven and whatever the clocks say. -/
theorem follow_iff_ends (plan : Plan) (budget batch : Nat) :
    host.Answers (·.follow plan (.start m budget batch)) w r w' ↔ host.Ends (.pending m) w r w' := by
  have positive : 0 < max batch 1 := Nat.lt_of_lt_of_le Nat.zero_lt_one (Nat.le_max_right ..)
  refine (follow_iff_sliced fun i => drives (plan.call i)).trans ⟨?_, ?_⟩
  · rintro ⟨k, n, calls, sliced⟩
    exact ⟨n, calls, (sliced_iff_reaches positive).mp ⟨k, sliced⟩⟩
  · rintro ⟨n, calls, reach⟩
    obtain ⟨k, sliced⟩ := (sliced_iff_reaches positive).mpr reach
    exact ⟨k, n, calls, sliced⟩

/-- However a task is driven and whatever the clocks say, it ends as the synchronous run of its
stream ends, and only if that ends. The slices it takes are finitely many and execute the frames of
that run, with the same invocations in the same order. -/
theorem follow_task_eq_execute (s : Stream) (cap : BacktraceCap) (budget batch : Nat) (plan : Plan)
    (w : World σ) (r : Except Error Value) (w' : World σ) :
    (host.Answers (·.follow plan (.start (.start s cap) budget batch)) w r w' ↔
      host.Answers (·.execute s cap) w r w') ∧
    (host.Answers (·.follow plan (.start (.start s cap) budget batch)) w r w' ↔
      ∃ k n calls, host.Sliced plan.clocks budget (max batch 1) 0 k n calls (.start s cap) w r w') ∧
    ∀ n calls,
      (∃ k, host.Sliced plan.clocks budget (max batch 1) 0 k n calls (.start s cap) w r w') ↔
        host.Reaches n calls (.pending (.start s cap)) w (.done r) w' := by
  have positive : 0 < max batch 1 := Nat.lt_of_lt_of_le Nat.zero_lt_one (Nat.le_max_right ..)
  refine ⟨(follow_iff_ends plan budget batch).trans execute_iff_ends.symm, ?_, fun n calls => ?_⟩
  · exact follow_iff_sliced fun i => drives (plan.call i)
  · exact sliced_iff_reaches positive

end Host

end CooperativeLisp

import CooperativeLisp.Proofs.Run

/-!
Time slices. A slice executes frames of the run it is a part of, batch after batch, until the run
ends or the clock is at the budget when a batch has ended. If the run ends, so does each slice.
-/

namespace CooperativeLisp

variable {σ : Type}

/-! ### What fuel does to slices -/

namespace Engine

variable {g h : Engine σ}

theorem Below.runBatch (below : g.Below h) (n : Nat) (m : Machine) :
    (g.runBatch n m).Below (h.runBatch n m) := by
  induction n generalizing m with
  | zero => exact .refl _
  | succ n ih =>
    refine (below.step m).bind fun a => ?_
    cases a with
    | pending m => exact ih m
    | done result => exact .refl _

/-- Executes the frames of a batch that follow on one. -/
def furtherFrames (g : Engine σ) (n : Nat) : Advance → Effect σ Advance
  | .pending m => g.runBatch n m
  | .done result => return .done result

theorem runBatch_succ (g : Engine σ) (n : Nat) (m : Machine) :
    g.runBatch (n + 1) m = g.step m >>= g.furtherFrames n := by
  refine congrArg (g.step m >>= ·) (funext fun a => ?_)
  cases a <;> rfl

theorem Below.furtherFrames (below : g.Below h) (n : Nat) (a : Advance) :
    (g.furtherFrames n a).Below (h.furtherFrames n a) := by
  cases a with
  | pending m => exact below.runBatch n m
  | done result => exact .refl _

/-- Executes the batches of a slice that follow on one. -/
def furtherBatches (g : Engine σ) (clock : Clock) (budget batch rounds round : Nat) :
    Advance → Effect σ Advance
  | .pending m =>
    if budget ≤ clock round then return .pending m
    else g.runSlice clock budget batch rounds (round + 1) m
  | .done result => return .done result

theorem runSlice_succ (g : Engine σ) (clock : Clock) (budget batch rounds round : Nat)
    (m : Machine) : g.runSlice clock budget batch (rounds + 1) round m =
      g.runBatch batch m >>= g.furtherBatches clock budget batch rounds round := by
  refine congrArg (g.runBatch batch m >>= ·) (funext fun a => ?_)
  cases a <;> rfl

theorem Below.runSlice (below : g.Below h) (clock : Clock) (budget batch : Nat) {n k : Nat}
    (less : n ≤ k) (round : Nat) (m : Machine) :
    (g.runSlice clock budget batch n round m).Below (h.runSlice clock budget batch k round m) := by
  induction n generalizing k round m with
  | zero => exact .exhausted _
  | succ n ih =>
    obtain _ | k := k
    · exact absurd less (Nat.not_succ_le_zero n)
    rw [runSlice_succ, runSlice_succ]
    refine (below.runBatch batch m).bind fun a => ?_
    cases a with
    | pending m =>
      unfold furtherBatches
      dsimp only
      split
      · exact .refl _
      · exact ih (Nat.le_of_succ_le_succ less) _ m
    | done result => exact .refl _

theorem Below.furtherBatches (below : g.Below h) (clock : Clock) (budget batch : Nat) {n k : Nat}
    (less : n ≤ k) (round : Nat) (a : Advance) :
    (g.furtherBatches clock budget batch n round a).Below
      (h.furtherBatches clock budget batch k round a) := by
  cases a with
  | pending m =>
    unfold Engine.furtherBatches
    dsimp only
    split
    · exact .refl _
    · exact below.runSlice clock budget batch less _ m
  | done result => exact .refl _

end Engine

namespace Host

variable {host : Host σ} {clock : Clock} {budget batch round n k : Nat} {m m' : Machine}
variable {calls more : List Invocation} {a : Advance} {w w' w₁ : World σ} {r : Except Error Value}

/-! ### Batches -/

/-- A batch executes all its frames, unless the run ends before. -/
theorem batch_iff : host.Answers (·.runBatch n m) w a w' ↔
    ∃ k calls, host.Reaches k calls (.pending m) w a w' ∧ k ≤ n ∧ (∀ m', a = .pending m' → k = n) := by
  constructor
  · rintro ⟨fuel, run⟩
    induction n generalizing m w with
    | zero =>
      obtain ⟨rfl, rfl⟩ := Effect.pure_eq_some.mp run
      exact ⟨0, [], .refl, Nat.le_refl 0, fun _ _ => rfl⟩
    | succ n ih =>
      simp only [Engine.runBatch_succ] at run
      obtain ⟨next, w₁, step, run⟩ := Effect.bind_eq_some.mp run
      have step : host.Steps m w next w₁ := ⟨fuel, step⟩
      cases next with
      | pending m₁ =>
        obtain ⟨k, calls, reach, within, full⟩ := ih run
        refine ⟨k + 1, _, .step step reach, by omega, fun m' pending => ?_⟩
        rw [full m' pending]
      | done result =>
        obtain ⟨rfl, rfl⟩ := Effect.pure_eq_some.mp run
        exact ⟨1, _, step.reaches, by omega, fun _ pending => nomatch pending⟩
  · rintro ⟨k, calls, reach, within, full⟩
    generalize start : Advance.pending m = b at reach
    induction reach generalizing m n with
    | refl =>
      subst start
      obtain rfl := full m rfl
      exact answers_pure.mpr ⟨rfl, rfl⟩
    | @step k _ m b _ _ _ _ step reach ih =>
      cases start
      obtain _ | n := n
      · exact absurd within (Nat.not_succ_le_zero k)
      have steady : Engine.Steady fun g : Engine σ => g.step m := fun below => below.step m
      have rest : ∀ b, Engine.Steady fun g : Engine σ => g.furtherFrames n b :=
        fun b _ _ below => below.furtherFrames n b
      simp only [Engine.runBatch_succ]
      refine (answers_bind steady rest).mpr ⟨b, _, step, ?_⟩
      cases b with
      | pending m₁ =>
        exact ih (Nat.le_of_succ_le_succ within)
          (fun m' pending => Nat.succ.inj (full m' pending)) rfl
      | done result =>
        obtain ⟨-, -, rfl, rfl⟩ := reach.of_done
        exact answers_pure.mpr ⟨rfl, rfl⟩

/-! ### Slices -/

/-- So many frames of a run are executed in a slice whose next batch has the number `round`. The
slice stops where the run ends, or after a batch when the clock is at the budget. -/
inductive Slice (host : Host σ) (clock : Clock) (budget batch : Nat) :
    Nat → Nat → List Invocation → Machine → World σ → Advance → World σ → Prop
  | ended {round n : Nat} {calls : List Invocation} {m : Machine} {w w' : World σ}
      {r : Except Error Value} : host.Reaches n calls (.pending m) w (.done r) w' → n ≤ batch →
      Slice host clock budget batch round n calls m w (.done r) w'
  | stopped {round : Nat} {calls : List Invocation} {m m' : Machine} {w w' : World σ} :
      host.Reaches batch calls (.pending m) w (.pending m') w' → budget ≤ clock round →
      Slice host clock budget batch round batch calls m w (.pending m') w'
  | further {round n : Nat} {calls more : List Invocation} {m m₁ : Machine} {a : Advance}
      {w w₁ w' : World σ} :
      host.Reaches batch calls (.pending m) w (.pending m₁) w₁ → clock round < budget →
      Slice host clock budget batch (round + 1) n more m₁ w₁ a w' →
      Slice host clock budget batch round (batch + n) (calls ++ more) m w a w'

/-- The frames of a slice are frames of the run. -/
theorem Slice.reaches (slice : host.Slice clock budget batch round n calls m w a w') :
    host.Reaches n calls (.pending m) w a w' := by
  induction slice with
  | ended reach _ => exact reach
  | stopped reach _ => exact reach
  | further reach _ _ ih => exact reach.trans ih

theorem Slice.progress (slice : host.Slice clock budget batch round n calls m w (.pending m') w')
    (positive : 0 < batch) : 0 < n := by
  cases slice <;> omega

/-- A slice is a batch and the batches after it. -/
theorem slice_loop : host.Answers (fun g => g.runSlice clock budget batch g.fuel round m) w a w' ↔
    ∃ b w₁, host.Answers (·.runBatch batch m) w b w₁ ∧
      host.Answers (fun g => g.furtherBatches clock budget batch g.fuel round b) w₁ a w' :=
  answers_loop (fun n g => g.runSlice clock budget batch n round m) (fun _ g => g.runBatch batch m)
    (fun b n g => g.furtherBatches clock budget batch n round b)
    (fun less below => below.runSlice clock budget batch less round m)
    (fun _ below => below.runBatch batch m)
    (fun b _ _ _ _ less below => below.furtherBatches clock budget batch less round b)
    (fun _ => rfl) fun n g => g.runSlice_succ clock budget batch n round m

theorem slice_iff : host.Answers (fun g => g.runSlice clock budget batch g.fuel round m) w a w' ↔
    ∃ n calls, host.Slice clock budget batch round n calls m w a w' := by
  constructor
  · rintro ⟨fuel, run⟩
    simp only [Engine.withFuel_fuel] at run
    suffices slices : ∀ rounds round m w,
        (Engine.withFuel host fuel).runSlice clock budget batch rounds round m w = some (a, w') →
        ∃ n calls, host.Slice clock budget batch round n calls m w a w' from slices _ _ _ _ run
    intro rounds
    induction rounds with
    | zero => exact fun round m w run => absurd run Effect.exhausted_ne_some
    | succ rounds ih =>
      intro round m w run
      rw [Engine.runSlice_succ] at run
      obtain ⟨b, w₁, first, run⟩ := Effect.bind_eq_some.mp run
      obtain ⟨k, calls, reach, within, full⟩ := batch_iff.mp ⟨fuel, first⟩
      cases b with
      | done result =>
        obtain ⟨rfl, rfl⟩ := Effect.pure_eq_some.mp run
        exact ⟨k, calls, .ended reach within⟩
      | pending m₁ =>
        obtain rfl := full m₁ rfl
        unfold Engine.furtherBatches at run
        dsimp only at run
        split at run
        · rename_i atBudget
          obtain ⟨rfl, rfl⟩ := Effect.pure_eq_some.mp run
          exact ⟨k, calls, .stopped reach atBudget⟩
        · rename_i below
          obtain ⟨n, more, slice⟩ := ih _ _ _ run
          exact ⟨_, _, .further reach (Nat.lt_of_not_le below) slice⟩
  · rintro ⟨n, calls, slice⟩
    induction slice with
    | ended reach within =>
      have first := batch_iff.mpr ⟨_, _, reach, within, fun _ pending => nomatch pending⟩
      exact slice_loop.mpr ⟨_, _, first, answers_pure.mpr ⟨rfl, rfl⟩⟩
    | stopped reach atBudget =>
      have first := batch_iff.mpr ⟨_, _, reach, Nat.le_refl _, fun _ _ => rfl⟩
      refine slice_loop.mpr ⟨_, _, first, ?_⟩
      simp only [Engine.furtherBatches, atBudget, if_true]
      exact answers_pure.mpr ⟨rfl, rfl⟩
    | further reach below _ ih =>
      have first := batch_iff.mpr ⟨_, _, reach, Nat.le_refl _, fun _ _ => rfl⟩
      refine slice_loop.mpr ⟨_, _, first, ?_⟩
      simp only [Engine.furtherBatches, Nat.not_le_of_lt below, if_false]
      exact ih

/-- A run that ends leaves no slice without an end. -/
theorem Reaches.slice (reach : host.Reaches n calls (.pending m) w (.done r) w')
    (positive : 0 < batch) (clock : Clock) (budget round : Nat) :
    ∃ k more a w₁, host.Slice clock budget batch round k more m w a w₁ := by
  induction n using Nat.strongRecOn generalizing calls m w round with
  | ind n ih =>
    by_cases within : n ≤ batch
    · exact ⟨n, calls, _, w', .ended reach within⟩
    · obtain ⟨c, w₁, first, rest, before, behind, rfl⟩ := reach.split (by omega : batch ≤ n)
      cases c with
      | done result =>
        obtain ⟨none, -⟩ := behind.of_done
        omega
      | pending m₁ =>
        by_cases atBudget : budget ≤ clock round
        · exact ⟨batch, first, _, w₁, .stopped before atBudget⟩
        · obtain ⟨k, more, a, w₂, slice⟩ := ih (n - batch) (by omega) behind (round + 1)
          exact ⟨_, _, a, w₂, .further before (Nat.lt_of_not_le atBudget) slice⟩

end Host

end CooperativeLisp

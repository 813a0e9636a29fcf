import CooperativeLisp.Proofs.Scopes
import CooperativeLisp.Proofs.Tasks

/-!
Sessions: what the holder of an interpreter does with it. Expressions are compiled and their streams
are kept; a kept stream is run to its end at once, or started in slices, as often as one likes; runs
in slices are driven in any order and may be dropped. A run that ends is reported together with the
number of its slices.
-/

namespace CooperativeLisp

variable {σ : Type}

/-- The extensions of an interpreter hide its declaring form, which hides what the base has by that
name. -/
theorem Interpreter.seed_get (base extensions : Table) (config : Config) (name : String) :
    (seed base extensions config)[name]? = extensions[name]?.or
      (if name = Form.name (.exports config.maxBacktrace) then
        some (.form (.exports config.maxBacktrace)) else base[name]?) := by
  rw [seed, Table.overlay_get, Std.TreeMap.getElem?_insert]
  congr 1
  simp only [Std.LawfulEqCmp.compare_eq_iff_eq, @eq_comm _ name]

/-- How a stream is run. -/
inductive Manner where
  | whole (cap : BacktraceCap)
  | sliced (clocks : Nat → Clock) (budget batch : Nat) (cap : BacktraceCap)

/-- A run that ends: the expression its stream was compiled from, the slices it took, what it ended
with and the scopes of that moment. -/
structure Report where
  source : Value
  manner : Manner
  slices : Nat
  result : Except Error Value
  scopes : Scopes

/-- A run that was started in slices, with the expression its stream was compiled from. -/
structure Launch where
  source : Value
  clocks : Nat → Clock
  budget : Nat
  batch : Nat
  cap : BacktraceCap
  task : Task

namespace Launch

def start (source : Value) (clocks : Nat → Clock) (budget batch : Nat) (cap : BacktraceCap)
    (s : Stream) : Launch :=
  ⟨source, clocks, budget, batch, cap, .start (.start s cap) budget batch⟩

/-- What a call to a launched run adds to the reports: its end, if it ends now. -/
inductive Reports (host : Host σ) (l : Launch) (w : World σ) :
    Progress → World σ → List Report → Prop
  | yielded {w' : World σ} : Reports host l w .yielded w' []
  | ended {m : Machine} {k n : Nat} {calls : List Invocation} {r : Except Error Value}
      {w' : World σ} : l.task.machine? = some m →
      host.Sliced l.clocks l.task.budget l.task.batch l.task.slices k n calls m w r w' →
      Reports host l w (.done r) w'
        [⟨l.source, .sliced l.clocks l.budget l.batch l.cap, l.task.slices + k, r, w'.scopes⟩]
  /-- A call to a run that has ended before reports nothing new. -/
  | finished {p : Progress} {w' : World σ} : l.task.machine? = none → Reports host l w p w' []

end Launch

/-- What the holder of an interpreter has: the world, the streams of expressions and the runs. -/
structure Session (σ : Type) where
  world : World σ
  stored : List (Value × Stream) := []
  tasks : List Launch := []

namespace Session

/-- One step of a session. The expressions that may be compiled are those that fit the world. -/
inductive Step (host : Host σ) (i : Interpreter) (fit : World σ → Value → Prop) :
    Session σ → List Report → Session σ → Prop
  | compile {w w' : World σ} {stored : List (Value × Stream)} {tasks : List Launch} {e : Value}
      {s : Stream} : fit w e → host.Answers (fun g => i.compile g e) w s w' →
      Step host i fit ⟨w, stored, tasks⟩ [] ⟨w', (e, s) :: stored, tasks⟩
  | execute {w w' : World σ} {stored : List (Value × Stream)} {tasks : List Launch} {e : Value}
      {s : Stream} {cap : BacktraceCap} {r : Except Error Value} : (e, s) ∈ stored →
      host.Answers (·.execute s cap) w r w' →
      Step host i fit ⟨w, stored, tasks⟩ [⟨e, .whole cap, 0, r, w'.scopes⟩] ⟨w', stored, tasks⟩
  | start {w : World σ} {stored : List (Value × Stream)} {tasks : List Launch} {e : Value}
      {s : Stream} {clocks : Nat → Clock} {budget batch : Nat} {cap : BacktraceCap} :
      (e, s) ∈ stored → Step host i fit ⟨w, stored, tasks⟩ []
        ⟨w, stored, .start e clocks budget batch cap s :: tasks⟩
  | drive {w w' : World σ} {stored : List (Value × Stream)} {before after : List Launch}
      {l : Launch} {c : Call} {p : Progress} {t : Task} {reports : List Report} :
      host.Answers (·.drive l.clocks l.task c) w (p, t) w' → l.Reports host w p w' reports →
      Step host i fit ⟨w, stored, before ++ l :: after⟩ reports
        ⟨w', stored, before ++ { l with task := t } :: after⟩
  | drop {w : World σ} {stored : List (Value × Stream)} {before after : List Launch} {l : Launch} :
      Step host i fit ⟨w, stored, before ++ l :: after⟩ [] ⟨w, stored, before ++ after⟩

/-- A series of steps with all that was reported, the first report first. -/
inductive Runs (host : Host σ) (i : Interpreter) (fit : World σ → Value → Prop) :
    Session σ → List Report → Session σ → Prop
  | refl {s : Session σ} : Runs host i fit s [] s
  | step {s s₁ s₂ : Session σ} {reports more : List Report} :
      Runs host i fit s reports s₁ → Step host i fit s₁ more s₂ →
      Runs host i fit s (reports ++ more) s₂

end Session

namespace Host

variable {host : Host σ} {clocks : Nat → Clock} {c : Call} {t t' : Task} {p : Progress}
variable {w w' : World σ}

/-- A run that has ended is not taken any further. -/
theorem drive_finished (finished : t.machine? = Option.none)
    (answers : host.Answers (·.drive clocks t c) w (p, t') w') :
    w' = w ∧ t'.machine? = Option.none := by
  obtain ⟨fuel, run⟩ := answers
  have resumed : ∀ g : Engine σ, g.resume (clocks t.slices) t =
      pure (.done (.error (Fault.internal .resumedAfterCompletion)), t) := fun g => by
    unfold Engine.resume
    rw [finished]
  cases c with
  | resume =>
    dsimp only [Engine.drive] at run
    rw [resumed] at run
    obtain ⟨same, rfl⟩ := Effect.pure_eq_some.mp run
    cases same
    exact ⟨rfl, finished⟩
  | poll =>
    dsimp only at run
    rw [Engine.drive_poll, resumed] at run
    obtain ⟨same, rfl⟩ := Effect.pure_eq_some.mp run
    cases same
    exact ⟨rfl, finished⟩
  | complete =>
    obtain ⟨r, w₁, completed, rest⟩ := Effect.bind_eq_some.mp run
    obtain ⟨same, rfl⟩ := Effect.pure_eq_some.mp rest
    cases same
    refine ⟨?_, rfl⟩
    unfold Engine.complete at completed
    generalize (Engine.withFuel host fuel).fuel = rounds at completed
    cases rounds with
    | zero => exact absurd completed Effect.exhausted_ne_some
    | succ rounds =>
      unfold Engine.completeWithin at completed
      rw [resumed, pure_bind] at completed
      exact (Effect.pure_eq_some.mp completed).2

/-- A call that reports an end leaves nothing to be run. -/
theorem drive_done {r : Except Error Value}
    (answers : host.Answers (·.drive clocks t c) w (.done r, t') w') :
    t'.machine? = Option.none := by
  obtain ⟨fuel, run⟩ := answers
  have resumed : (Engine.withFuel host fuel).resume (clocks t.slices) t w =
      some ((.done r, t'), w') → t'.machine? = Option.none := by
    intro run
    unfold Engine.resume at run
    cases running : t.machine? with
    | none =>
      rw [running] at run
      obtain ⟨same, -⟩ := Effect.pure_eq_some.mp run
      cases same
      exact running
    | some m =>
      rw [running] at run
      obtain ⟨a, -, same⟩ := Effect.map_eq_some.mp run
      cases a with
      | pending m => cases same
      | done r =>
        cases same
        rfl
  cases c with
  | resume => exact resumed run
  | poll =>
    dsimp only at run
    rw [Engine.drive_poll] at run
    exact resumed run
  | complete =>
    obtain ⟨r, w₁, -, rest⟩ := Effect.bind_eq_some.mp run
    obtain ⟨same, -⟩ := Effect.pure_eq_some.mp rest
    cases same
    rfl

/-- A call to a run that goes on takes it to its end through its slices, or one slice further. -/
theorem drive_running {m : Machine} (running : t.machine? = some m)
    (answers : host.Answers (·.drive clocks t c) w (p, t') w') :
    (∃ r k n calls, p = .done r ∧
      host.Sliced clocks t.budget t.batch t.slices k n calls m w r w') ∨
    ∃ m₁ n calls, p = .yielded ∧ t' = ⟨some m₁, t.budget, t.batch, t.slices + 1⟩ ∧
      host.Slice (clocks t.slices) t.budget t.batch 0 n calls m w (.pending m₁) w' := by
  obtain ⟨machine?, budget, batch, slices⟩ := t
  obtain rfl := running
  exact (drives c).sound answers

end Host

end CooperativeLisp

import CooperativeLisp.Proofs.Pairing
import CooperativeLisp.Proofs.Session
import CooperativeLisp.Extension

/-!
Runs do not interfere. On an interpreter whose table holds no form that binds a name, every run of
a session ends as it would if it were the only one on a fresh interpreter, whatever is compiled, run,
sliced and dropped between its slices: with values that nothing visible tells apart or with the same
failure, and after as many slices.
-/

namespace CooperativeLisp

open List (Forall₂)

variable {σ : Type} {extras : Callable → Prop}

/-- The likeness that shows of a closure its parameters, its body and its environment, and not which
closure it is. -/
def Likeness.visible (R : Environment → Environment → Prop) : Likeness where
  environment := R
  identity _ _ := True
  admits _ := True

/-- Results that nothing visible tells apart. Environments may stand for each other if every name has
values in them that are alike as well. -/
def Indistinguishable (left right : Scopes) (r r' : Except Error Value) : Prop :=
  ∃ R : Environment → Environment → Prop,
    (∀ {env env'}, R env env' → ∀ name, Option.Rel (Value.Alike (.visible R))
      (left.get? env name) (right.get? env' name)) ∧
    Matched (.visible R) (Value.Alike (.visible R)) r r'

/-- A value that means the same in every world: it holds no closure, and no callables but the extras
and those of the library that leave every scope alone. -/
def Value.Portable (extras : Callable → Prop) (v : Value) : Prop :=
  v.Alike (.renaming extras (fun _ _ => False) fun _ _ => False) v

/-- A table of portable values. -/
def Table.Portable (extras : Callable → Prop) (table : Table) : Prop :=
  ∀ (name : String) (v : Value), table[name]? = some v → v.Portable extras

/-- The standard library is portable as it stands. -/
theorem Library.table_portable : Library.table.Portable extras :=
  fun _ _ => table_alike

/-- An interpreter starts from a portable table if its extensions replace the declaring form. -/
theorem Interpreter.seed_portable {base extensions : Table} {config : Config}
    (portable : base.Portable extras) (more : extensions.Portable extras)
    (replaced : extensions[Form.name (.exports config.maxBacktrace)]? ≠ none) :
    (seed base extensions config).Portable extras := by
  intro name v bound
  rw [seed_get, Option.or_eq_some_iff] at bound
  rcases bound with top | ⟨free, below⟩
  · exact more name v top
  · split at below
    · rename_i same
      exact absurd (same ▸ free) replaced
    · exact portable name v below

namespace Host

/-- A stream is run in this manner, to an end after so many slices. -/
def Conducts (host : Host σ) (manner : Manner) (s : Stream) (w : World σ) (slices : Nat)
    (r : Except Error Value) (w' : World σ) : Prop :=
  match manner with
  | .whole cap => slices = 0 ∧ host.Answers (·.execute s cap) w r w'
  | .sliced clocks budget batch cap => ∃ n calls,
    host.Sliced clocks budget (max batch 1) 0 slices n calls (.start s cap) w r w'

end Host

/-- The run ends in the same way, after as many slices, if it is the only one of an interpreter in
this world. -/
def Report.HoldsAlone (report : Report) (host : Host σ) (i : Interpreter) (w : World σ) : Prop :=
  ∃ s w₁ r w₂, host.Answers (fun g => i.compile g report.source) w s w₁ ∧
    host.Conducts report.manner s w₁ report.slices r w₂ ∧
    Indistinguishable report.scopes w₂.scopes report.result r

/-- The root of an interpreter binds what a table binds, and nothing else. -/
structure Interpreter.Over (i : Interpreter) (table : Table) (w : World σ) : Prop where
  outermost : i.root.outer = []
  opened : i.root.scope < w.scopes.tables.size
  bound : ∀ name : String, w.scopes.local? i.root.scope name = table[name]?

theorem Interpreter.over_openRoot (w : World σ) (table : Table) (config : Config) :
    Interpreter.Over ⟨(w.openRoot table).1, config⟩ table (w.openRoot table).2 where
  outermost := rfl
  opened := by simp [World.openRoot, Scopes.openRoot]
  bound name := by simp [World.openRoot, Scopes.openRoot, Scopes.local?, Scopes.table]

namespace Pairing

theorem indistinguishable (k : Pairing σ extras) {r r' : Except Error Value}
    (same : Matched k.likeness (Value.Alike k.likeness) r r') :
    Indistinguishable k.left.scopes k.right.scopes r r' := by
  have le : k.likeness.Le (.visible k.likeness.environment) :=
    ⟨id, fun _ => trivial, fun _ => trivial⟩
  exact ⟨k.likeness.environment,
    fun around name => Value.Alike.monoOption le (k.find? name around),
    same.mono le (Value.Alike.mono le)⟩

variable {table : Table} {i i₀ : Interpreter} {W w : World σ}

/-- Roots that bind what the same portable table binds stand for each other. -/
def rooted (portable : table.Portable extras) (based : i.Over table W) (fresh : i₀.Over table w) :
    Pairing σ extras where
  left := W
  right := w
  scopes x y := x = i.root.scope ∧ y = i₀.root.scope
  closures _ _ := False
  scopes_unique := ⟨fun _ _ _ first second => first.1.trans second.1.symm,
    fun _ _ _ first second => first.2.trans second.2.symm⟩
  closures_unique := ⟨fun _ _ _ none => none.elim, fun _ _ _ none => none.elim⟩
  opened := by
    rintro _ _ ⟨rfl, rfl⟩
    exact ⟨based.opened, fresh.opened⟩
  made none := none.elim
  bound := by
    rintro _ _ ⟨rfl, rfl⟩ name
    rw [based.bound, fresh.bound]
    cases found : table[name]? with
    | none => exact .none
    | some v =>
      exact .some ((portable name v found).mono (Likeness.renaming_le False.elim False.elim))

theorem rooted_root (portable : table.Portable extras) (based : i.Over table W)
    (fresh : i₀.Over table w) :
    (rooted portable based fresh).likeness.environment i.root i₀.root := by
  have paired : Forall₂ (rooted portable based fresh).scopes i.root.outer i₀.root.outer := by
    rw [based.outermost, fresh.outermost]
    exact .nil
  exact .cons ⟨rfl, rfl⟩ paired

end Pairing

section Mirrored

variable (host : Host σ) (extras : Callable → Prop) (i₀ : Interpreter) (w₀ : World σ)

/-- The stream of an expression, beside the stream that a fresh interpreter makes of it. -/
def Stream.Mirrored (w : World σ) (e : Value) (s : Stream) : Prop :=
  ∃ (k : Pairing σ extras) (s' : Stream), k.left = w ∧
    host.Answers (fun g => i₀.compile g e) w₀ s' k.right ∧ s.Alike k.likeness s'

/-- A run in slices, beside the same run on a fresh interpreter: whatever slices are still to come
there follow on those that the run has had. -/
def Launch.Mirrored (w : World σ) (l : Launch) : Prop :=
  ∀ m, l.task.machine? = some m → l.task.budget = l.budget ∧ l.task.batch = max l.batch 1 ∧
    ∃ (k : Pairing σ extras) (m' : Machine), k.left = w ∧ m.Alike k.likeness m' ∧
      ∀ {j n calls r w'},
        host.Sliced l.clocks l.budget (max l.batch 1) l.task.slices j n calls m' k.right r w' →
        ∃ s w₁, host.Answers (fun g => i₀.compile g l.source) w₀ s w₁ ∧
          host.Conducts (.sliced l.clocks l.budget l.batch l.cap) s w₁ (l.task.slices + j) r w'

/-- A session in which everything goes on as it does on a fresh interpreter. -/
structure Session.Mirrored (i : Interpreter) (table : Table) (s : Session σ) : Prop where
  based : i.Over table s.world
  stored : ∀ entry ∈ s.stored, Stream.Mirrored host extras i₀ w₀ s.world entry.1 entry.2
  tasks : ∀ l ∈ s.tasks, Launch.Mirrored host extras i₀ w₀ s.world l

variable {host extras i₀ w₀} {w w' : World σ}

theorem Interpreter.Over.grows {i : Interpreter} {table : Table} (grows : w.Grows w')
    (based : i.Over table w) : i.Over table w' where
  outermost := based.outermost
  opened := Nat.lt_of_lt_of_le based.opened grows.opened
  bound name := by rw [grows.kept _ based.opened, based.bound]

theorem Stream.Mirrored.grows {e : Value} {s : Stream} (grows : w.Grows w')
    (mirrored : Stream.Mirrored host extras i₀ w₀ w e s) :
    Stream.Mirrored host extras i₀ w₀ w' e s := by
  obtain ⟨k, s', rfl, compiled, same⟩ := mirrored
  exact ⟨k.move grows (.refl _), s', rfl, compiled, same⟩

theorem Launch.Mirrored.grows {l : Launch} (grows : w.Grows w')
    (mirrored : Launch.Mirrored host extras i₀ w₀ w l) :
    Launch.Mirrored host extras i₀ w₀ w' l := by
  intro m running
  obtain ⟨budget, batch, k, m', rfl, same, resumes⟩ := mirrored m running
  exact ⟨budget, batch, k.move grows (.refl _), m', rfl, same, resumes⟩

/-- Growth of the world leaves everything as it was, with whatever is mirrored in the new world. -/
theorem Session.Mirrored.grows {i : Interpreter} {table : Table} {s : Session σ}
    {stored : List (Value × Stream)} {tasks : List Launch}
    (mirrored : s.Mirrored host extras i₀ w₀ i table) (grows : s.world.Grows w)
    (newStored : ∀ entry ∈ stored, entry ∈ s.stored ∨
      Stream.Mirrored host extras i₀ w₀ w entry.1 entry.2)
    (newTasks : ∀ l ∈ tasks, l ∈ s.tasks ∨ Launch.Mirrored host extras i₀ w₀ w l) :
    Session.Mirrored host extras i₀ w₀ i table ⟨w, stored, tasks⟩ where
  based := mirrored.based.grows grows
  stored entry member := (newStored entry member).elim
    (fun old => (mirrored.stored entry old).grows grows) id
  tasks l member := (newTasks l member).elim (fun old => (mirrored.tasks l old).grows grows) id

end Mirrored

section Steps

variable {host : Host σ} {table : Table} {i i₀ : Interpreter} {w₀ : World σ}
variable {s s' : Session σ} {reports : List Report}

/-- A call to a run in slices takes the same run on a fresh interpreter as far, and ends it if it
ends the one. -/
theorem Launch.Mirrored.drive (pure : host.Pure extras) {l : Launch} {c : Call} {p : Progress}
    {t : Task} {w w' : World σ} (mirrored : l.Mirrored host extras i₀ w₀ w)
    (answers : host.Answers (·.drive l.clocks l.task c) w (p, t) w')
    (reported : l.Reports host w p w' reports) :
    w.Grows w' ∧ Launch.Mirrored host extras i₀ w₀ w' { l with task := t } ∧
      ∀ report ∈ reports, report.HoldsAlone host i₀ w₀ := by
  have respected := Pairing.respected pure
  have settled : t.machine? = none → Launch.Mirrored host extras i₀ w₀ w' { l with task := t } :=
    fun none m running => nomatch none.symm.trans running
  cases running : l.task.machine? with
  | none =>
    obtain ⟨rfl, finished⟩ := Host.drive_finished running answers
    refine ⟨.refl _, settled finished, ?_⟩
    cases reported with
    | ended running' _ => cases running.symm.trans running'
    | _ => exact nofun
  | some m =>
    obtain ⟨budget, batch, k, m', rfl, same, resumes⟩ := mirrored m running
    have same : Machine.Alike ((Pairing.correspondence σ extras).likeness k) m m' := same
    cases reported with
    | finished finished => cases running.symm.trans finished
    | ended running' sliced =>
      cases running.symm.trans running'
      rw [budget, batch] at sliced
      obtain ⟨k', n', calls', r', later, rfl, sliced', ends⟩ := respected.sliced sliced rfl same
      obtain ⟨s', w₁, compiled, conducted⟩ := resumes sliced'
      refine ⟨later.left, settled (Host.drive_done answers), fun report member => ?_⟩
      obtain rfl := List.mem_singleton.mp member
      exact ⟨s', w₁, r', k'.right, compiled, conducted, Pairing.indistinguishable k' ends⟩
    | yielded =>
      obtain ⟨r, _, _, _, done, _⟩ | ⟨m₁, n, calls, -, rfl, slice⟩ :=
        Host.drive_running running answers
      · cases done
      rw [budget, batch] at slice
      obtain ⟨k', n', calls', a, later, rfl, slice', further⟩ := respected.slice slice same
      cases further with
      | @pending _ m₂ same =>
        refine ⟨later.left, fun m' running => ⟨budget, batch, k', m₂, rfl, ?_, ?_⟩, nofun⟩
        · cases running
          exact same
        · intro j n calls r w' sliced
          obtain ⟨s', w₁, compiled, conducted⟩ := resumes (.more slice' sliced)
          refine ⟨s', w₁, compiled, ?_⟩
          rwa [show l.task.slices + (j + 1) = l.task.slices + 1 + j by omega] at conducted

/-- A step of a session keeps it mirrored, and the runs that end in it hold alone. -/
theorem Session.Step.mirrored (pure : host.Pure extras) (portable : table.Portable extras)
    (fresh : i₀.Over table w₀)
    (step : Session.Step host i (fun _ e => e.Portable extras) s reports s')
    (mirrored : s.Mirrored host extras i₀ w₀ i table) :
    s'.Mirrored host extras i₀ w₀ i table ∧ ∀ report ∈ reports, report.HoldsAlone host i₀ w₀ := by
  have respected := Pairing.respected pure
  cases step with
  | @compile w w' stored tasks e s fits answers =>
    have root := Pairing.rooted_root portable mirrored.based fresh
    have alike : (Pairing.correspondence σ extras).Values
        (Pairing.rooted portable mirrored.based fresh) e e :=
      fits.mono (Likeness.renaming_le False.elim False.elim)
    obtain ⟨k', s', later, rfl, compiled, same⟩ := respected.compile root alike answers
    refine ⟨mirrored.grows later.left ?_ fun l => Or.inl, nofun⟩
    intro entry member
    rcases List.mem_cons.mp member with rfl | old
    · exact Or.inr ⟨k', s', rfl, compiled, same⟩
    · exact Or.inl old
  | @execute w w' stored tasks e s cap r member answers =>
    obtain ⟨k, s', rfl, compiled, same⟩ := mirrored.stored _ member
    have same : (Pairing.correspondence σ extras).Streams k s s' := same
    obtain ⟨k', r', later, rfl, executed, ends⟩ := respected.execute same answers
    refine ⟨mirrored.grows later.left (fun _ => Or.inl) fun _ => Or.inl, ?_⟩
    intro report reported
    obtain rfl := List.mem_singleton.mp reported
    exact ⟨s', k.right, r', k'.right, compiled, ⟨rfl, executed⟩, Pairing.indistinguishable k' ends⟩
  | @start w stored tasks e s clocks budget batch cap member =>
    refine ⟨mirrored.grows (.refl _) (fun _ => Or.inl) fun l launched => ?_, nofun⟩
    rcases List.mem_cons.mp launched with rfl | old
    · obtain ⟨k, s', rfl, compiled, same⟩ := mirrored.stored _ member
      refine Or.inr fun m running => ⟨rfl, rfl, k, .start s' cap, rfl, ?_, ?_⟩
      · cases running
        exact .start same cap
      · intro j n calls r w' sliced
        refine ⟨s', k.right, compiled, n, calls, ?_⟩
        show host.Sliced clocks budget (max batch 1) 0 (0 + j) n calls _ _ r w'
        rw [Nat.zero_add]
        exact sliced
    · exact Or.inl old
  | @drive w w' stored before after l c p t reports answers reported =>
    have launched := mirrored.tasks l (List.mem_append_right _ List.mem_cons_self)
    obtain ⟨grows, further, hold⟩ := launched.drive pure answers reported
    refine ⟨mirrored.grows grows (fun _ => Or.inl) fun l' member => ?_, hold⟩
    rcases List.mem_append.mp member with first | last
    · exact Or.inl (List.mem_append_left _ first)
    · rcases List.mem_cons.mp last with rfl | last
      · exact Or.inr further
      · exact Or.inl (List.mem_append_right _ (List.mem_cons_of_mem _ last))
  | @drop w stored before after l =>
    refine ⟨mirrored.grows (.refl _) (fun _ => Or.inl) fun l' member => Or.inl ?_, nofun⟩
    rcases List.mem_append.mp member with first | last
    · exact List.mem_append_left _ first
    · exact List.mem_append_right _ (List.mem_cons_of_mem _ last)

theorem Session.Runs.mirrored (pure : host.Pure extras) (portable : table.Portable extras)
    (fresh : i₀.Over table w₀)
    (runs : Session.Runs host i (fun _ e => e.Portable extras) s reports s')
    (mirrored : s.Mirrored host extras i₀ w₀ i table) :
    s'.Mirrored host extras i₀ w₀ i table ∧ ∀ report ∈ reports, report.HoldsAlone host i₀ w₀ := by
  induction runs with
  | refl => exact ⟨mirrored, nofun⟩
  | step _ step ih =>
    obtain ⟨mirrored, before⟩ := ih
    obtain ⟨mirrored, now⟩ := step.mirrored pure portable fresh mirrored
    refine ⟨mirrored, fun report member => ?_⟩
    exact (List.mem_append.mp member).elim (before report) (now report)

end Steps

/-- Runs do not interfere. In every session with an interpreter over a portable table, each run that
ends, at once or in slices, ends as it does when it is the only run on a fresh interpreter over the
same table: with a value that nothing visible tells apart from that one, or with a failure of the same
kind, message and backtrace, and after as many slices. -/
theorem Host.Pure.runs_hold_alone {host : Host σ} (pure : host.Pure extras) {table : Table}
    (portable : table.Portable extras) (w fresh : World σ) (config : Config)
    {reports : List Report} {s : Session σ}
    (runs : Session.Runs host ⟨(w.openRoot table).1, config⟩ (fun _ e => e.Portable extras)
      ⟨(w.openRoot table).2, [], []⟩ reports s) :
    ∀ report ∈ reports,
      report.HoldsAlone host ⟨(fresh.openRoot table).1, config⟩ (fresh.openRoot table).2 :=
  (runs.mirrored pure portable (Interpreter.over_openRoot fresh table config)
    ⟨Interpreter.over_openRoot w table config, nofun, nofun⟩).2

/-! ### A session with three runs -/

namespace Extension

/-- The native that answers with its arguments. -/
def spread : Callable := .native (.host "spread")

/-- What that native does depends on its arguments alone. -/
theorem host_pure : host.Pure (· = spread) where
  native := by
    intro name scopes closures args args' admitted _ _ all
    cases admitted
    refine ⟨fun _ _ => .ok (.answer (.stream ⟨?_, rfl⟩)), fun _ => ⟨rfl, rfl⟩,
      fun _ => ⟨rfl, rfl⟩⟩
    exact List.rel_map (fun _ _ same => Frame.Alike.value same) all
  form admitted := nomatch admitted
  expander admitted := nomatch admitted
  exports _ admitted := nomatch admitted

/-- The library with that native, without declarations. -/
def quietTable : Table :=
  Interpreter.seed Library.table (.ofEntries [("export", .nil), ("spread", .callable spread)]) {}

theorem quietTable_portable : quietTable.Portable (· = spread) := by
  refine Interpreter.seed_portable Library.table_portable ?_ ?_
  · intro name v bound
    rcases List.mem_cons.mp (Table.mem_of_ofEntries_get bound) with replaced | native
    · cases replaced
      exact .nil
    · cases List.mem_singleton.mp native
      exact .native (.inr rfl)
  · rw [Table.ofEntries_get]
    exact Option.some_ne_none _

/-- An interpreter over that table, in a world of its own. -/
def quiet : Interpreter × World Log :=
  let w : World Log := ⟨{}, 0, []⟩
  (⟨(w.openRoot quietTable).1, {}⟩, (w.openRoot quietTable).2)

def spreader : Closure :=
  ⟨0, ["x"], .ignored, .list [.callable spread, .truth], ⟨0, []⟩⟩

/-- The operator is an application as well, so that the closure is made while this is compiled. -/
def spreading : Value :=
  .list [Library.apply (.form .lambda) [.list [.symbol "x"], spreader.body], .nil]

theorem spreading_portable : spreading.Portable (· = spread) := by
  have body : spreader.body.Portable (· = spread) :=
    .list (.cons (.native (.inr rfl)) (.cons .truth .nil))
  exact .list (.cons (.list (.cons (.form (.inl trivial))
    (.cons (.list (.cons (.symbol _) .nil)) (.cons body .nil)))) (.cons .nil .nil))

/-- The expression that the call frame of its stream comes from. -/
def spreadingCall : Value :=
  Library.apply Engine.callNative
    [Library.apply (.form .lambda) [.list [.symbol "x"], spreader.body], .nil]

def spreadingStream : Stream :=
  ⟨[.value (.callable (.closure spreader)), .value .nil,
    .call (.callable (.native (.primitive .call))) 2 spreadingCall], false⟩

/-- The run of that stream in slices of three frames. -/
def spreadingRun : Launch :=
  .start spreading (fun _ => .still) 0 3 10 spreadingStream

/-- The run after its first slice, with the body of the closure before it. -/
def spreadingRest : Machine :=
  ⟨[.value .truth, .call (.callable spread) 1 spreader.body], [], [spreadingCall], 10⟩

end Extension

open Extension in
/-- The stream is run at once between the two slices of a run, and another run of it is dropped. -/
theorem Host.runs_hold_alone_spreading : ∃ reports s,
    Session.Runs Extension.host quiet.1 (fun _ e => e.Portable (· = spread)) ⟨quiet.2, [], []⟩
      reports s ∧ reports.map (fun report => report.slices) = [0, 2] ∧
    ∀ report ∈ reports, report.HoldsAlone Extension.host quiet.1 quiet.2 := by
  let w : World Log := { quiet.2 with closures := 1 }
  let w₁ := (w.enter spreader [.nil]).2
  let w₂ := (w₁.enter spreader [.nil]).2
  let step := Session.Step Extension.host quiet.1 fun _ e => e.Portable (· = spread)
  let stored := [(spreading, spreadingStream)]
  have compiled : step ⟨quiet.2, [], []⟩ [] ⟨w, stored, []⟩ :=
    .compile spreading_portable ⟨8, rfl⟩
  have started : ∀ runs, step ⟨w, stored, runs⟩ [] ⟨w, stored, spreadingRun :: runs⟩ :=
    fun _ => .start List.mem_cons_self
  have first : step ⟨w, stored, [spreadingRun, spreadingRun]⟩ [] ⟨w₁, stored,
      [{ spreadingRun with task := ⟨some spreadingRest, 0, 3, 1⟩ }, spreadingRun]⟩ :=
    @Session.Step.drive _ _ _ _ _ _ _ [] _ _ .resume .yielded _ _ ⟨8, rfl⟩ .yielded
  have whole : ∀ runs, step ⟨w₁, stored, runs⟩
      [⟨spreading, .whole 10, 0, .ok .truth, w₂.scopes⟩] ⟨w₂, stored, runs⟩ :=
    fun _ => .execute List.mem_cons_self ⟨8, rfl⟩
  have dropped : ∀ l, step ⟨w₂, stored, [l, spreadingRun]⟩ [] ⟨w₂, stored, [l]⟩ :=
    fun l => @Session.Step.drop _ _ _ _ _ _ [l] _ _
  obtain ⟨n, calls, last⟩ : ∃ n calls,
      Extension.host.Slice .still 0 3 0 n calls spreadingRest w₂ (.done (.ok .truth)) w₂ :=
    Host.slice_iff.mp ⟨8, rfl⟩
  have ended := @Session.Step.drive _ Extension.host quiet.1 (fun _ e => e.Portable (· = spread)) w₂
    w₂ stored [] [] { spreadingRun with task := ⟨some spreadingRest, 0, 3, 1⟩ } .resume _ _ _
    ⟨8, rfl⟩ (.ended rfl (.last last))
  have runs := ((((((Session.Runs.refl.step compiled).step (started _)).step (started _)).step
    first).step (whole _)).step (dropped _)).step ended
  exact ⟨_, _, runs, rfl, host_pure.runs_hold_alone quietTable_portable _ _ _ runs⟩

end CooperativeLisp

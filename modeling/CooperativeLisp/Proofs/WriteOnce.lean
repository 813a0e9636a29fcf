import Mathlib.Data.List.Nodup
import CooperativeLisp.Proofs.History
import CooperativeLisp.Proofs.Session
import CooperativeLisp.Extension

/-!
Scopes are written once. Whatever is done with an interpreter, names are compiled, run, sliced,
dropped, declared at any depth and bound at the root, a name that the root binds keeps its first
value, and of all the declarations of a name at most one binds it while the others fail.
-/

namespace CooperativeLisp

variable {σ : Type} {roots : ScopeId → Prop} {children : Prop} {keeps : Scopes → σ → Prop}
variable {host : Host σ} {i : Interpreter} {s s' s₁ : Session σ} {log : List Event}

/-- What happens in the course of a call to a run in slices. -/
inductive Launch.Records (host : Host σ) (l : Launch) (w : World σ) :
    Progress → Task → List Event → World σ → Prop
  | finished {p : Progress} {t : Task} {w' : World σ} : l.task.machine? = none →
      Records host l w p t [] w'
  | yielded {m m₁ : Machine} {t : Task} {log : List Event} {w' : World σ} :
      l.task.machine? = some m → t.machine? = some m₁ →
      host.Records (.running (.pending m) (.pending m₁)) w log w' → Records host l w .yielded t log w'
  | ended {m : Machine} {r : Except Error Value} {t : Task} {log : List Event}
      {w' : World σ} : l.task.machine? = some m →
      host.Records (.running (.pending m) (.done r)) w log w' → Records host l w (.done r) t log w'

namespace Session

/-- One act of a session, with what happens in its course. The expressions that are compiled and
the values that are bound are those that fit the world. -/
inductive Act (host : Host σ) (i : Interpreter) (fit : World σ → Value → Prop) :
    Session σ → List Event → Session σ → Prop
  | compile {w w' : World σ} {stored : List (Value × Stream)} {tasks : List Launch} {e : Value}
      {s : Stream} {log : List Event} : fit w e →
      host.Answers (fun g => i.compile g e) w s w' →
      host.Records (.expressions i.root [e]) w log w' →
      Act host i fit ⟨w, stored, tasks⟩ log ⟨w', (e, s) :: stored, tasks⟩
  | execute {w w' : World σ} {stored : List (Value × Stream)} {tasks : List Launch} {e : Value}
      {s : Stream} {cap : BacktraceCap} {r : Except Error Value} {log : List Event} :
      (e, s) ∈ stored → host.Answers (·.execute s cap) w r w' →
      host.Records (.running (.pending (.start s cap)) (.done r)) w log w' →
      Act host i fit ⟨w, stored, tasks⟩ log ⟨w', stored, tasks⟩
  | start {w : World σ} {stored : List (Value × Stream)} {tasks : List Launch} {e : Value}
      {s : Stream} {clocks : Nat → Clock} {budget batch : Nat} {cap : BacktraceCap} :
      (e, s) ∈ stored →
      Act host i fit ⟨w, stored, tasks⟩ [] ⟨w, stored, .start e clocks budget batch cap s :: tasks⟩
  | drive {w w' : World σ} {stored : List (Value × Stream)} {before after : List Launch}
      {l : Launch} {c : Call} {p : Progress} {t : Task} {log : List Event} :
      host.Answers (·.drive l.clocks l.task c) w (p, t) w' → l.Records host w p t log w' →
      Act host i fit ⟨w, stored, before ++ l :: after⟩ log
        ⟨w', stored, before ++ { l with task := t } :: after⟩
  | drop {w : World σ} {stored : List (Value × Stream)} {before after : List Launch} {l : Launch} :
      Act host i fit ⟨w, stored, before ++ l :: after⟩ [] ⟨w, stored, before ++ after⟩
  /-- The attempt may fail, and changes nothing then. -/
  | bind {w : World σ} {stored : List (Value × Stream)} {tasks : List Launch} {name : String}
      {v : Value} : fit w v →
      Act host i fit ⟨w, stored, tasks⟩ [.moment (w.bind i.root name v).2.scopes]
        ⟨(w.bind i.root name v).2, stored, tasks⟩

/-- A series of acts with all that happens in its course. -/
inductive Acts (host : Host σ) (i : Interpreter) (fit : World σ → Value → Prop) :
    Session σ → List Event → Session σ → Prop
  | refl {s : Session σ} : Acts host i fit s [] s
  | step {s s₁ s₂ : Session σ} {log more : List Event} : Acts host i fit s log s₁ →
      Act host i fit s₁ more s₂ → Acts host i fit s (log ++ more) s₂

end Session

/-! ### Every step of a session is an act -/

theorem Launch.recorded {l : Launch} {c : Call} {p : Progress} {t : Task} {w w' : World σ}
    (answers : host.Answers (·.drive l.clocks l.task c) w (p, t) w') :
    ∃ log, l.Records host w p t log w' := by
  cases running : l.task.machine? with
  | none =>
    obtain ⟨rfl, -⟩ := Host.drive_finished running answers
    exact ⟨[], .finished running⟩
  | some m =>
    obtain ⟨r, k, n, calls, rfl, sliced⟩ | ⟨m₁, n, calls, rfl, rfl, slice⟩ :=
      Host.drive_running running answers
    · obtain ⟨log, records⟩ := sliced.reaches.recorded
      exact ⟨log, .ended running records⟩
    · obtain ⟨log, records⟩ := slice.reaches.recorded
      exact ⟨log, .yielded running rfl records⟩

theorem Session.Step.act {fit : World σ → Value → Prop} {reports : List Report}
    (step : Session.Step host i fit s reports s') : ∃ log, Session.Act host i fit s log s' := by
  cases step with
  | compile fits answers =>
    obtain ⟨log, records⟩ := Host.recorded_compile answers
    exact ⟨log, .compile fits answers records⟩
  | execute stored answers =>
    obtain ⟨n, calls, reach⟩ := Host.execute_iff_ends.mp answers
    obtain ⟨log, records⟩ := reach.recorded
    exact ⟨log, .execute stored answers records⟩
  | start stored => exact ⟨[], .start stored⟩
  | drive answers _ =>
    obtain ⟨log, records⟩ := Launch.recorded answers
    exact ⟨log, .drive answers records⟩
  | drop => exact ⟨[], .drop⟩

/-- Nothing that is done in a session is without its log. -/
theorem Session.Runs.acts {fit : World σ → Value → Prop} {reports : List Report}
    (runs : Session.Runs host i fit s reports s') : ∃ log, Session.Acts host i fit s log s' := by
  induction runs with
  | refl => exact ⟨[], .refl⟩
  | step _ step ih =>
    obtain ⟨log, acts⟩ := ih
    obtain ⟨more, act⟩ := step.act
    exact ⟨log ++ more, acts.step act⟩

/-! ### What acts keep -/

/-- A session in which nothing but what is held is stored and run. -/
structure Session.Sound (roots : ScopeId → Prop) (keeps : Scopes → σ → Prop) (i : Interpreter)
    (s : Session σ) : Prop where
  world : s.world.Sound roots keeps
  root : i.root.Genuine roots s.world.scopes
  outermost : i.root.isRoot = true
  stored : ∀ entry ∈ s.stored, entry.2.Alike (.own roots s.world.scopes) entry.2
  tasks : ∀ l ∈ s.tasks, ∀ m, l.task.machine? = some m → m.Alike (.own roots s.world.scopes) m

/-- What was held still is, beside whatever is stored and started anew. -/
theorem Session.Sound.later {w : World σ} {stored : List (Value × Stream)} {tasks : List Launch}
    (sound : s.Sound roots keeps i) (passes : s.world.Passes roots children keeps [] log w)
    (newStored : ∀ entry ∈ stored, entry ∈ s.stored ∨
      entry.2.Alike (.own roots w.scopes) entry.2)
    (newTasks : ∀ l ∈ tasks, l ∈ s.tasks ∨
      ∀ m, l.task.machine? = some m → m.Alike (.own roots w.scopes) m) :
    s.world.Passes roots children keeps [] log w ∧
      Session.Sound roots keeps i ⟨w, stored, tasks⟩ := by
  have more := (passes.kept sound.world).opened
  refine ⟨passes, passes.sound, sound.root.grows more, sound.outermost, ?_, ?_⟩
  · exact fun entry member => (newStored entry member).elim
      (fun old => (sound.stored entry old).mono (Likeness.own_le more)) id
  · exact fun l member => (newTasks l member).elim
      (fun old m running => (sound.tasks l old m running).mono (Likeness.own_le more)) id

/-- A call to a run in slices leaves it at a point that is held. -/
theorem Launch.Records.passes (writes : host.Writes roots children keeps) {l : Launch} {c : Call}
    {p : Progress} {t : Task} {w w' : World σ} (sound : w.Sound roots keeps)
    (held : ∀ m, l.task.machine? = some m → m.Alike (.own roots w.scopes) m)
    (answers : host.Answers (·.drive l.clocks l.task c) w (p, t) w')
    (records : l.Records host w p t log w') :
    w.Passes roots children keeps [] log w' ∧
      ∀ m, t.machine? = some m → m.Alike (.own roots w'.scopes) m := by
  cases records with
  | finished none =>
    obtain ⟨rfl, finished⟩ := Host.drive_finished none answers
    exact ⟨.stay sound, fun m running => nomatch finished.symm.trans running⟩
  | yielded running next records =>
    rename_i m m₁
    have start := held m running
    refine ⟨records.passes writes sound (.pending start), fun m' running' => ?_⟩
    obtain ⟨r, _, _, _, done, _⟩ | ⟨m₂, n, calls, -, rfl, slice⟩ :=
      Host.drive_running running answers
    · cases done
    cases running'
    obtain ⟨-, -, same⟩ := writes.slices sound start slice
    cases same with
    | pending same => exact same
  | ended running records =>
    refine ⟨records.passes writes sound (.pending (held _ running)), fun m' running' => ?_⟩
    cases (Host.drive_done answers).symm.trans running'

/-- An act keeps a session sound, and all that happens in its course is as it should be. -/
theorem Session.Act.passes (writes : host.Writes roots children keeps)
    (act : Session.Act host i (fun w v => v.Held roots w.scopes) s log s')
    (sound : s.Sound roots keeps i) :
    s.world.Passes roots children keeps [] log s'.world ∧ s'.Sound roots keeps i := by
  cases act with
  | @compile w w' stored tasks e s log held answers records =>
    have single : ∀ e' ∈ [e], e'.Held roots w.scopes := List.forall_mem_singleton.mpr held
    have passes := records.passes writes sound.world ⟨sound.root, single⟩
    obtain ⟨-, -, same⟩ := writes.compiles sound.world held sound.root answers
    refine sound.later passes (fun entry member => ?_) fun _ => Or.inl
    rcases List.mem_cons.mp member with rfl | old
    · exact Or.inr same
    · exact Or.inl old
  | execute stored answers records =>
    have passes := records.passes writes sound.world (.pending (.start (sound.stored _ stored) _))
    exact sound.later passes (fun _ => Or.inl) fun _ => Or.inl
  | start stored =>
    refine sound.later (.stay sound.world) (fun _ => Or.inl) fun l launched => ?_
    rcases List.mem_cons.mp launched with rfl | old
    · refine Or.inr fun m running => ?_
      cases running
      exact .start (sound.stored _ stored) _
    · exact Or.inl old
  | @drive w w' stored before after l c p t log answers records =>
    have held := sound.tasks l (List.mem_append_right _ List.mem_cons_self)
    obtain ⟨passes, further⟩ := records.passes writes sound.world held answers
    refine sound.later passes (fun _ => Or.inl) fun l' member => ?_
    rcases List.mem_append.mp member with first | last
    · exact Or.inl (List.mem_append_left _ first)
    · rcases List.mem_cons.mp last with rfl | last
      · exact Or.inr further
      · exact Or.inl (List.mem_append_right _ (List.mem_cons_of_mem _ last))
  | @drop w stored before after l =>
    refine sound.later (.stay sound.world) (fun _ => Or.inl) fun l' member => Or.inl ?_
    rcases List.mem_append.mp member with first | last
    · exact List.mem_append_left _ first
    · exact List.mem_append_right _ (List.mem_cons_of_mem _ last)
  | bind held =>
    obtain ⟨kept, after⟩ := sound.world.bind writes (Or.inl sound.outermost) sound.root held
    exact sound.later (.moment kept after) (fun _ => Or.inl) fun _ => Or.inl

theorem Session.Acts.passes (writes : host.Writes roots children keeps)
    (acts : Session.Acts host i (fun w v => v.Held roots w.scopes) s log s')
    (sound : s.Sound roots keeps i) :
    s.world.Passes roots children keeps [] log s'.world ∧ s'.Sound roots keeps i := by
  induction acts with
  | refl => exact ⟨.stay sound.world, sound⟩
  | step _ act ih =>
    obtain ⟨before, now⟩ := ih
    obtain ⟨passes, after⟩ := act.passes writes now
    exact ⟨before.trans sound.world passes, after⟩

/-- What the roots bind is kept by all that is compiled, run, sliced and dropped. -/
theorem Session.Runs.kept (writes : host.Writes roots children keeps) {reports : List Report}
    (runs : Session.Runs host i (fun w v => v.Held roots w.scopes) s reports s')
    (sound : s.Sound roots keeps i) :
    s.world.scopes.Kept roots children s'.world.scopes ∧ s'.Sound roots keeps i := by
  obtain ⟨log, acts⟩ := runs.acts
  obtain ⟨passes, after⟩ := acts.passes writes sound
  exact ⟨passes.kept sound.world, after⟩

/-! ### New interpreters -/

/-- A table of what is held becomes a root. -/
theorem Scopes.Sound.openRoot {scopes : Scopes} {table : Table} (sound : scopes.Sound roots)
    (held : ∀ {name : String} {v : Value}, table[name]? = some v → v.Held roots scopes) :
    (scopes.openRoot table).2.Sound fun x => roots x ∨ x = scopes.tables.size := by
  have size : (scopes.openRoot table).2.tables.size = scopes.tables.size + 1 :=
    Scopes.tables_openRoot
  have le : (Likeness.own roots scopes).Le
      (.own (fun x => roots x ∨ x = scopes.tables.size) (scopes.openRoot table).2) := by
    refine ⟨fun around => ⟨around.1, fun x member => ?_, Or.inl around.2.outermost,
      fun x member => ?_⟩, id, id⟩
    · rw [size]
      exact Nat.lt_succ_of_lt (around.2.opened x member)
    · rintro (root | rfl)
      · exact around.2.inner x member root
      · exact Nat.lt_irrefl _ (around.2.opened _ (List.dropLast_subset _ member))
  refine ⟨fun {x} root => ?_, fun {x name v} found => Value.Alike.mono le ?_⟩
  · rw [size]
    rcases root with old | rfl
    · exact Nat.lt_succ_of_lt (sound.opened old)
    · exact Nat.lt_succ_self _
  · by_cases new : x = scopes.tables.size
    · subst new
      exact held (Scopes.local?_openRoot_self.symm.trans found)
    · exact sound.held ((Scopes.local?_openRoot_other new).symm.trans found)

theorem Library.table_held {scopes : Scopes} {name : String} {v : Value}
    (found : table[name]? = some v) : v.Held roots scopes :=
  table_alike found

theorem Interpreter.seed_held {scopes : Scopes} {base extensions : Table} {config : Config}
    {name : String} {v : Value}
    (below : ∀ {name : String} {v : Value}, base[name]? = some v → v.Held roots scopes)
    (above : ∀ {name : String} {v : Value}, extensions[name]? = some v → v.Held roots scopes)
    (found : (seed base extensions config)[name]? = some v) : v.Held roots scopes := by
  rw [seed_get, Option.or_eq_some_iff] at found
  rcases found with top | ⟨-, found⟩
  · exact above top
  · split at found
    · cases found
      exact .form (.inr trivial)
    · exact below found

/-- The session that a new interpreter starts with is sound. -/
theorem Interpreter.build_sound {w : World σ} {base extensions : Table} {config : Config}
    (sound : w.scopes.Sound roots)
    (below : ∀ {name : String} {v : Value}, base[name]? = some v → v.Held roots w.scopes)
    (above : ∀ {name : String} {v : Value}, extensions[name]? = some v → v.Held roots w.scopes)
    (host : keeps (build w base extensions config).2.scopes w.host) :
    Session.Sound (fun x => roots x ∨ x = w.scopes.tables.size) keeps
      (build w base extensions config).1 ⟨(build w base extensions config).2, [], []⟩ where
  world := ⟨sound.openRoot (seed_held below above), host⟩
  root := by
    refine ⟨fun x member => ?_, Or.inr rfl, nofun⟩
    obtain rfl := List.mem_singleton.mp member
    simp [build, World.openRoot, Scopes.openRoot]
  outermost := rfl
  stored := nofun
  tasks := nofun

/-! ### What is written once -/

/-- Scopes are written once. In every sound session, of an interpreter of whose host the functions
touch environments only by binding names in them, and whatever is done in it:

* at every moment, within runs and between them, a root keeps the value of every name that it has
  bound before, and no reserved name is added to it;
* if no one binds in children, the other scopes keep their tables, those that are opened have the
  table of the arguments of an invocation, and what a look-up has found once it finds for ever;
* of two declarations at the same root only one has bound a name, which was free before all of
  them, and a declaration that succeeds has bound all its names by itself. -/
theorem Host.Writes.write_once (writes : host.Writes roots children keeps)
    (sound : s.Sound roots keeps i)
    (acts : Session.Acts host i (fun w v => v.Held roots w.scopes) s log s') :
    (s.world.scopes :: momentsOf log).Pairwise (fun scopes later =>
      scopes.Kept roots children later ∧ (¬ children → ∀ env, env.Genuine roots scopes →
        ∀ name v, scopes.get? env name = some v → later.get? env name = some v)) ∧
    (momentsOf log).getLastD s.world.scopes = s'.world.scopes ∧
    (∀ d ∈ declarationsOf log, ∀ name ∈ d.bound,
      s.world.scopes.local? d.root name = Option.none ∧
        s'.world.scopes.local? d.root name ≠ Option.none) ∧
    ((declarationsOf log).Pairwise fun d d' =>
      d.root = d'.root → ∀ name ∈ d.bound, name ∉ d'.bound) ∧
    ∀ d ∈ declarationsOf log, d.succeeded = true → d.bound = d.names := by
  obtain ⟨⟨course, -, lawful⟩, -⟩ := acts.passes writes sound
  obtain ⟨⟨names, written, gains⟩, complete⟩ := lawful
  have once : ((declarationsOf log).flatMap Declaration.written).Nodup :=
    written.nodup_iff.mpr gains.once
  refine ⟨?_, course.last, fun d recorded name bound => ?_, ?_, complete⟩
  · exact (course.pairwise sound.world.scopes).imp fun kept =>
      ⟨kept, fun never env genuine name v => kept.get? never genuine⟩
  · have gained : (d.root, name) ∈ names := by
      refine written.mem_iff.mp (List.mem_flatMap.mpr ⟨d, recorded, ?_⟩)
      exact List.mem_map.mpr ⟨name, bound, rfl⟩
    obtain ⟨v, found⟩ := gains.bound _ gained
    exact ⟨gains.free _ gained, by rw [found]; exact Option.some_ne_none v⟩
  · refine (List.nodup_flatMap.mp once).2.imp fun {d d'} apart same name bound again => ?_
    refine apart (List.mem_map.mpr ⟨name, bound, rfl⟩) (List.mem_map.mpr ⟨name, again, ?_⟩)
    rw [same]

/-! ### A name that is declared within its own declaration -/

namespace Extension

theorem bindHere_run {env : Environment} {name : String} {v : Value} {w : World Log} :
    (bindHere env [.symbol name, v]).run.run w =
      ((w.bind env name v).1.map fun _ => .value .truth, (w.bind env name v).2) := by
  have current : (get : HostAction Log (World Log)).run.run w = pure (.ok w, w) := rfl
  have stored (w' : World Log) : (set w' : HostAction Log Unit).run.run w = pure (.ok (), w') := rfl
  rcases bound : w.bind env name v with ⟨_ | _, w'⟩ <;>
    simp only [bindHere, ExceptT.run_bind, StateT.run_bind, current, stored, bound, pure_bind] <;>
    rfl

/-- A host with one form, which binds names at the root. -/
def binder : Host Log :=
  { Host.none Log with form := fun _ operands env => bindHere env.root operands }

theorem binder_writes {roots : ScopeId → Prop} : binder.Writes roots False fun _ _ => True where
  grows _ _ := trivial
  native _ _ := ⟨.refl, trivial, .same _⟩
  expander _ _ _ := ⟨.refl, trivial, .same _⟩
  form := by
    intro w name operands env sound held genuine
    show (bindHere env.root operands).Writes roots False (fun _ _ => True) Answer.Alike w
    unfold bindHere
    split
    · rename_i name v
      have held := held v (List.mem_cons_of_mem _ List.mem_cons_self)
      show (bindHere env.root [.symbol name, v]).Writes roots False _ Answer.Alike w
      refine ⟨?_, trivial, ?_⟩
      · rw [bindHere_run]
        exact World.bind_binds (Or.inl env.root_isRoot) genuine.root held
      · rw [bindHere_run]
        cases ended : (w.bind env.root name v).1 with
        | ok _ => exact .ok (.value .truth)
        | error e => exact .error (World.bind_refusal ended)
    · exact ⟨.refl, trivial, .same _⟩

/-- A new interpreter with the library, in a world of its own. -/
def fresh : Interpreter × World Log :=
  Interpreter.build ⟨{}, 0, []⟩ Library.table ∅ {}

/-- The scopes that are roots in that world. -/
def freshRoots (x : ScopeId) : Prop :=
  False ∨ x = 0

theorem fresh_sound : Session.Sound freshRoots (fun _ _ => True) fresh.1 ⟨fresh.2, [], []⟩ := by
  let w : World Log := ⟨{}, 0, []⟩
  have nothing : w.scopes.Sound fun _ => False := ⟨False.elim, fun found => nomatch found⟩
  have free : ∀ {name : String} {v : Value}, (∅ : Table)[name]? = some v →
      v.Held (fun _ => False) w.scopes := fun found => nomatch found
  exact Interpreter.build_sound (w := w) nothing Library.table_held free trivial

/-- `(export ((a init)))` -/
def declaring (init : Value) : Value :=
  .list [.form (.exports 10), .list [.list [.symbol "a", init]]]

theorem declaring_held {scopes : Scopes} {init : Value} (held : init.Held freshRoots scopes) :
    (declaring init).Held freshRoots scopes :=
  .list (.cons (.form (.inr trivial)) (.cons (.list (.cons (.list (.cons (.symbol _)
    (.cons held .nil))) .nil)) .nil))

/-- The world once the name is bound. -/
def declared : World Log :=
  (fresh.2.bind fresh.1.root "a" .truth).2

theorem declaring_records : ∃ log, binder.Records (.evaluating fresh.1.root (declaring .truth) 10)
    fresh.2 log declared ∧ declarationsOf log = [.success fresh.1.root ["a"]] := by
  have value : binder.Records (.evaluating fresh.1.root .truth 10) fresh.2 _ fresh.2 :=
    .evaluating (.plain rfl ⟨1, rfl⟩ .nil) ⟨2, rfl⟩
      (.plainStep rfl (Host.steps_value.mpr ⟨rfl, rfl⟩) .arrived)
  have inner : binder.Records (.declaring fresh.1.root 10 [] [⟨.symbol "a", .truth⟩]) fresh.2 _
      declared := .binds rfl rfl value ⟨3, rfl⟩ rfl .declared
  exact ⟨_, .evaluating (.nested rfl inner ⟨5, rfl⟩ .nil) ⟨6, rfl⟩
    (.plainStep rfl (Host.steps_value.mpr ⟨rfl, rfl⟩) .arrived), rfl⟩

end Extension

open Extension in
/-- The inner declaration binds the name, and the outer one fails as a later attempt of the host
does. -/
theorem Host.write_once_declaring : ∃ log s',
    Session.Acts binder fresh.1 (fun w v => v.Held freshRoots w.scopes) ⟨fresh.2, [], []⟩ log s' ∧
    (declarationsOf log).map (fun d => d.bound) = [["a"], []] ∧
    (declarationsOf log).Pairwise fun d d' =>
      d.root = d'.root → ∀ name ∈ d.bound, name ∉ d'.bound := by
  obtain ⟨log, records, declares⟩ := declaring_records
  have outer : binder.Records (.expressions fresh.1.root [declaring (declaring .truth)]) fresh.2 _
      declared := .nested rfl (.refused rfl rfl records ⟨6, rfl⟩ rfl) ⟨7, rfl⟩ .idle
  have compiled : Session.Act binder fresh.1 (fun w v => v.Held freshRoots w.scopes)
      ⟨fresh.2, [], []⟩ _ ⟨declared, _, []⟩ :=
    .compile (declaring_held (declaring_held .truth)) ⟨7, rfl⟩ outer
  have acts := (Session.Acts.refl.step compiled).step (@Session.Act.bind _ _ _ _ _ _ _ "a" _ .nil)
  refine ⟨_, _, acts, ?_, (binder_writes.write_once fresh_sound acts).2.2.2.1⟩
  simp [declares, Declaration.success, Declaration.failure]

end CooperativeLisp

import CooperativeLisp.Proofs.Totality
import CooperativeLisp.Proofs.Session
import CooperativeLisp.Extension

/-!
A run in slices always gives control back. Over the library, with natives of a host that name no
callable to be invoked in their place, every frame of a run comes to an end: a compilation resolves
an expression, and an invocation ends at a native that answers or at the body of a closure. So a
slice without a budget ends after one batch, whether the program ends or not.
-/

namespace CooperativeLisp

open List (Forall₂)

variable {σ : Type} {natives : String → Prop} {inside : ScopeId → Prop} {keeps : σ → Prop}

/-- The likeness of a world with itself in which nothing occurs but the library, without the form
that declares names, and natives of a host. Environments stand for themselves if all their scopes
are inside of what is looked at. -/
def Likeness.library (natives : String → Prop) (inside : ScopeId → Prop) : Likeness where
  environment env env' := env = env' ∧ ∀ x ∈ env.chain, inside x
  identity := Eq
  admits c := ∃ name, natives name ∧ c = .native (.host name)

/-- A value that holds nothing else, in the bodies of its closures either. -/
def Value.Tame (natives : String → Prop) (inside : ScopeId → Prop) (v : Value) : Prop :=
  v.Alike (.library natives inside) v

/-- The scopes inside bind nothing else, and every scope that will be opened is one of them. -/
structure World.Tame (natives : String → Prop) (inside : ScopeId → Prop) (keeps : σ → Prop)
    (w : World σ) : Prop where
  bound : ∀ {x name v}, inside x → w.scopes.local? x name = some v → v.Tame natives inside
  unopened : ∀ {x}, w.scopes.tables.size ≤ x → inside x
  host : keeps w.host

/-- What the natives of a host may do: they hand back and bind nothing else, and name no callable
to be invoked in their place. `keeps` says what the host's state may hold. -/
structure Host.Quiet (host : Host σ) (natives : String → Prop) (inside : ScopeId → Prop)
    (keeps : σ → Prop) : Prop where
  leaves : ∀ {name args w}, natives name → (∀ v ∈ args, v.Tame natives inside) →
    w.Tame natives inside keeps →
    ((host.native name args).run.run w).2.Tame natives inside keeps
  replies : ∀ {name args w}, natives name → (∀ v ∈ args, v.Tame natives inside) →
    w.Tame natives inside keeps → Matched (.library natives inside)
      (Reply.Alike (.library natives inside)) ((host.native name args).run.run w).1
      ((host.native name args).run.run w).1
  final : ∀ {name args w c args'}, natives name → (∀ v ∈ args, v.Tame natives inside) →
    w.Tame natives inside keeps →
    ((host.native name args).run.run w).1 ≠ .ok (.invoke c args')

theorem Likeness.library_exact : (Likeness.library natives inside).Exact :=
  ⟨And.left, id⟩

theorem Value.tameAll {vs : List Value} : Forall₂ (Value.Alike (.library natives inside)) vs vs ↔
    ∀ v ∈ vs, v.Tame natives inside :=
  List.forall₂_same

/-! ### Worlds -/

namespace World.Tame

variable {w : World σ} {env : Environment} {name : String} {v : Value} {c : Closure}
variable {args : List Value}

theorem find? (tame : w.Tame natives inside keeps) {chain : List ScopeId}
    (around : ∀ x ∈ chain, inside x) (found : w.scopes.find? name chain = some v) :
    v.Tame natives inside := by
  induction chain with
  | nil => cases found
  | cons x chain ih =>
    unfold Scopes.find? at found
    split at found
    · rename_i here
      cases found
      exact tame.bound (around x List.mem_cons_self) here
    · exact ih (fun y member => around y (List.mem_cons_of_mem _ member)) found

theorem enter (tame : w.Tame natives inside keeps)
    (callee : Callable.Alike (.library natives inside) (.closure c) (.closure c))
    (all : Forall₂ (Value.Alike (.library natives inside)) args args) :
    (w.enter c args).2.Tame natives inside keeps where
  bound {x name v} member found := by
    by_cases new : x = w.scopes.tables.size
    · subst new
      rw [World.enter_new] at found
      have entry := Table.ofEntries_alike (Closure.arguments_alike callee all) name
      rw [found] at entry
      cases entry with
      | some same => exact same
    · exact tame.bound member ((w.enter_other c args new name).symm.trans found)
  unopened {x} more := by
    rw [World.enter_size] at more
    exact tame.unopened (by omega)
  host := tame.host

/-- The scope that is opened is inside. -/
theorem entered (tame : w.Tame natives inside keeps) (around : ∀ x ∈ c.env.chain, inside x) :
    ∀ x ∈ (w.enter c args).1.chain, inside x := by
  intro x member
  rcases List.mem_cons.mp member with rfl | outer
  · exact tame.unopened (Nat.le_refl _)
  · exact around x outer

theorem operator (tame : w.Tame natives inside keeps) (around : ∀ x ∈ env.chain, inside x)
    {operator : Value} (known : operator.Tame natives inside) {c : Callable}
    (resolved : w.scopes.operator env operator = .ok c) :
    c.Alike (.library natives inside) c := by
  unfold Scopes.operator at resolved
  split at resolved
  · split at resolved
    · rename_i found
      cases resolved
      exact tame.find? around found
    · cases resolved
    · cases resolved
  · cases resolved
    exact known
  · cases resolved

/-- Resolving an expression in a tame world comes to an end. -/
theorem resolvable (host : Host σ) (tame : w.Tame natives inside keeps)
    (around : ∀ x ∈ env.chain, inside x) {e : Value} (known : e.Tame natives inside) :
    host.Resolvable w.scopes env e := by
  refine .of_parts (P := (·.Tame natives inside)) (fun whole member => ?_)
    (fun operator resolved => ?_) known
  · cases whole with
    | list all => exact Value.tameAll.mp all _ member
  · have callee := tame.operator around operator resolved
    cases callee with
    | native | closure => exact Or.inl trivial
    | form known => exact Or.inr (known.resolve_right nofun)
    | expander known => exact Or.inr (known.resolve_right nofun)

/-- Compiling an expression in a tame world comes to an end. -/
theorem compiles (host : Host σ) (tame : w.Tame natives inside keeps)
    (around : ∀ x ∈ env.chain, inside x) {e : Value} (known : e.Tame natives inside) :
    ∃ s w', host.Answers (·.compile env e) w s w' := by
  obtain ⟨r, w', resolves, -⟩ := tame.resolvable host around known w rfl
  obtain ⟨s, compiled, -⟩ := resolves.places.compile
  exact ⟨s, w', compiled⟩

end World.Tame

/-! ### What an engine keeps tame -/

/-- Tame worlds, each beside itself. -/
@[reducible]
def Correspondence.library (natives : String → Prop) (inside : ScopeId → Prop) (keeps : σ → Prop) :
    Correspondence σ where
  Moment := { w : World σ // w.Tame natives inside keeps }
  left k := k.1
  right k := k.1
  likeness _ := .library natives inside
  Later _ _ := True
  refl _ := trivial
  trans _ _ := trivial
  grows _ := ⟨id, id, id⟩

/-- A machine that holds nothing but the library and natives of the host. -/
def Machine.Tame (natives : String → Prop) (inside : ScopeId → Prop) (m : Machine) : Prop :=
  m.Alike (.library natives inside) m

namespace Host.Quiet

variable {host : Host σ} {w w' : World σ} {c : Callable} {args : List Value} {m : Machine}

theorem respected (quiet : host.Quiet natives inside keeps) :
    (Correspondence.library natives inside keeps).Respected host where
  lookup := by
    rintro ⟨w, tame⟩ env _ name ⟨rfl, around⟩
    cases found : w.scopes.get? env name with
    | none => exact .none
    | some v => exact .some (tame.find? around found)
  opens := by
    rintro ⟨w, tame⟩ c d args args' same all
    obtain rfl := Likeness.library_exact.eqAll all
    cases Likeness.library_exact.eq same
    refine ⟨⟨_, tame.enter same all⟩, trivial, rfl, rfl, rfl, ?_⟩
    cases same with
    | closure _ _ around => exact tame.entered around.2
  makes k :=
    ⟨⟨{ k.1 with closures := k.1.closures + 1 }, k.2.bound, k.2.unopened, k.2.host⟩, trivial, rfl,
      rfl, rfl⟩
  root := fun ⟨_, _, exports⟩ _ => nomatch exports
  binds := fun ⟨_, _, exports⟩ _ _ => nomatch exports
  bind := fun ⟨_, _, exports⟩ _ _ _ => nomatch exports
  native := by
    rintro k name args _ ⟨_, known, same⟩ all
    cases same
    obtain rfl := Likeness.library_exact.eqAll all
    have tame := Value.tameAll.mp all
    exact ⟨⟨_, quiet.leaves known tame k.2⟩, trivial, rfl, rfl, quiet.replies known tame k.2⟩
  form := fun ⟨_, _, other⟩ _ _ => nomatch other
  expander := fun ⟨_, _, other⟩ _ _ => nomatch other

/-- What an engine answers in a tame world is tame, and so is the world that it leaves. -/
theorem answers {α : Type} {R : (Correspondence.library natives inside keeps).Moment → α → α → Prop}
    {f : Engine σ → Effect σ α} {a : α} (quiet : host.Quiet natives inside keeps)
    (tame : w.Tame natives inside keeps) (steady : Engine.Steady f)
    (answers : host.Answers f w a w')
    (same : ∀ g, (Correspondence.library natives inside keeps).Serves g →
      (Correspondence.library natives inside keeps).Matches ⟨w, tame⟩ R (f g) (f g)) :
    ∃ after : w'.Tame natives inside keeps, R ⟨w', after⟩ a a := by
  let now : (Correspondence.library natives inside keeps).Moment := ⟨w, tame⟩
  obtain ⟨k, b, -, rfl, again, related⟩ := quiet.respected.answers (k := now) answers same
  obtain ⟨rfl, -⟩ := again.unique steady answers
  exact ⟨k.2, related⟩

theorem step (quiet : host.Quiet natives inside keeps) (tame : w.Tame natives inside keeps)
    (machine : m.Tame natives inside) {a : Advance} (steps : host.Steps m w a w') :
    w'.Tame natives inside keeps ∧ a.Alike (.library natives inside) a := by
  obtain ⟨after, same⟩ := quiet.answers tame (fun below => below.step m) steps
    fun _ serves => serves.step_matches machine
  exact ⟨after, same⟩

/-! ### Every frame comes to an end -/

/-- What is left to do after a reply comes to an end, if an invocation in its place does. -/
theorem handles_total (host : Host σ) {reply : Except Error Reply}
    (tame : w.Tame natives inside keeps)
    (known : Matched (.library natives inside) (Reply.Alike (.library natives inside)) reply reply)
    (instead : ∀ {c args}, reply = .ok (.invoke c args) →
      c.Alike (.library natives inside) c → (∀ v ∈ args, v.Tame natives inside) →
      ∃ answer w', host.Answers (fun g => (g.invoke c args).run) w answer w') :
    ∃ answer w', host.Answers (fun g => g.handle g.fuel reply) w answer w' := by
  cases known with
  | error _ => exact ⟨_, w, answers_pure.mpr ⟨rfl, rfl⟩⟩
  | ok related =>
    cases related with
    | invoke callee all => exact instead rfl callee (Value.tameAll.mp all)
    | answer same =>
      cases same with
      | value _ => exact ⟨_, w, answers_pure.mpr ⟨rfl, rfl⟩⟩
      | stream _ => exact ⟨_, w, answers_pure.mpr ⟨rfl, rfl⟩⟩
      | compile around known =>
        obtain ⟨s, w', compiled⟩ := tame.compiles host around.2 known
        exact ⟨_, w', handles_compile compiled⟩

/-- An invocation comes to an end: what a native names in its place has fewer arguments. -/
theorem invokes_total (quiet : host.Quiet natives inside keeps)
    (tame : w.Tame natives inside keeps) (callee : c.Alike (.library natives inside) c)
    (all : ∀ v ∈ args, v.Tame natives inside) :
    ∃ answer w', host.Answers (fun g => (g.invoke c args).run) w answer w' := by
  induction size : sizeOf args using Nat.strongRecOn generalizing c args with
  | ind n smaller =>
    subst size
    have itself := callee
    cases callee with
    | form _ => exact ⟨_, w, invokes_of_reply (fun _ _ => rfl) (answers_pure.mpr ⟨rfl, rfl⟩)⟩
    | expander _ => exact ⟨_, w, invokes_of_reply (fun _ _ => rfl) (answers_pure.mpr ⟨rfl, rfl⟩)⟩
    | @closure i _ params rest body _ env _ _ known around =>
      have inner : ∀ x ∈ (w.enter ⟨i, params, rest, body, env⟩ args).1.chain, inside x :=
        tame.entered around.2
      obtain ⟨answer, w', handled⟩ := handles_total host
        (tame.enter itself (Value.tameAll.mpr all))
        (.ok (.answer (.compile ⟨rfl, inner⟩ known))) nofun
      exact ⟨answer, w', invokes_of_reply (fun _ _ => Engine.reply_closure rfl) handled⟩
    | @native f known =>
      cases f with
      | primitive p =>
        obtain ⟨answer, w', handled⟩ := handles_total host tame
          (p.run_alike (Value.tameAll.mpr all)) fun replied callee inner =>
            smaller _ (p.run_invoke replied) callee inner rfl
        exact ⟨answer, w', invokes_of_native rfl handled⟩
      | host name =>
        obtain ⟨_, member, same⟩ := known.resolve_left id
        cases same
        obtain ⟨answer, w', handled⟩ := handles_total host
          (quiet.leaves member all tame) (quiet.replies member all tame) fun replied _ _ =>
            absurd replied (quiet.final member all tame)
        exact ⟨answer, w', invokes_of_native rfl handled⟩

theorem performs_total {operation : Operation} (quiet : host.Quiet natives inside keeps)
    (tame : w.Tame natives inside keeps)
    (known : operation.Alike (.library natives inside) operation)
    (all : ∀ v ∈ args, v.Tame natives inside) :
    ∃ answer w', host.Performs operation args w answer w' := by
  cases known with
  | callable callee => exact quiet.invokes_total tame callee all
  | @branch _ _ t _ e _ around consequent alternative =>
    have chosen : (if args.head?.any Value.isTrue then t else e).Tame natives inside := by
      split
      · exact consequent
      · exact alternative
    obtain ⟨s, w', compiled⟩ := tame.compiles host around.2 chosen
    exact ⟨_, w', performs_branch compiled⟩
  | sequel around next =>
    obtain ⟨s, w', compiled⟩ := tame.compiles host around.2 next
    exact ⟨_, w', performs_sequel compiled⟩

/-- The next frame of a tame machine comes to an end. -/
theorem steps_total (quiet : host.Quiet natives inside keeps) (tame : w.Tame natives inside keeps)
    (machine : m.Tame natives inside) : ∃ a w', host.Steps m w a w' := by
  obtain ⟨frames, stack, trace, cap⟩ := m
  have values := Value.tameAll.mp machine.stack
  cases machine.frames with
  | nil => exact ⟨_, w, steps_nil.mpr ⟨rfl, rfl⟩⟩
  | cons first rest =>
    cases first with
    | value _ => exact ⟨_, w, steps_value.mpr ⟨rfl, rfl⟩⟩
    | error _ => exact ⟨_, w, steps_error.mpr ⟨rfl, rfl⟩⟩
    | @call _ _ argc _ _ operation _ =>
      rcases Nat.lt_or_ge stack.length argc with lacking | enough
      · exact ⟨_, w, (steps_underflow lacking).mpr ⟨rfl, rfl⟩⟩
      · obtain ⟨answer, w', performs⟩ := quiet.performs_total tame operation fun v member =>
          values v (List.mem_of_mem_take (List.mem_reverse.mp member))
        exact ⟨_, w', (steps_call enough).mpr ⟨answer, performs, rfl⟩⟩

/-- A batch of frames comes to an end. -/
theorem reaches_total (quiet : host.Quiet natives inside keeps)
    (tame : w.Tame natives inside keeps) (machine : m.Tame natives inside) (n : Nat) :
    ∃ k calls a w', host.Reaches k calls (.pending m) w a w' ∧ k ≤ n ∧
      (∀ m', a = .pending m' → k = n) ∧ w'.Tame natives inside keeps ∧
      a.Alike (.library natives inside) a := by
  induction n generalizing m w with
  | zero =>
    exact ⟨0, [], _, w, .refl, Nat.le_refl 0, fun _ _ => rfl, tame, .pending machine⟩
  | succ n ih =>
    obtain ⟨a, w₁, step⟩ := quiet.steps_total tame machine
    obtain ⟨after, same⟩ := quiet.step tame machine step
    cases same with
    | done known =>
      exact ⟨1, _, _, w₁, step.reaches, Nat.le_add_left 1 n, nofun, after, .done known⟩
    | pending machine =>
      obtain ⟨k, calls, a, w', reach, within, full, tame, known⟩ := ih after machine
      refine ⟨k + 1, _, a, w', .step step reach, by omega, fun m' pending => ?_, tame, known⟩
      rw [full m' pending]

end Host.Quiet

/-! ### Tasks -/

namespace Host

variable {host : Host σ} {w w' w'' : World σ} {t t' t'' : Task} {clock : Clock}

/-- What becomes of a task: it is resumed under any clock, or the world is changed by others to one
that is allowed. -/
inductive Lives (host : Host σ) (allowed : World σ → Prop) (t : Task) (w : World σ) :
    Task → World σ → Prop
  | started : Lives host allowed t w t w
  | resumed {clock : Clock} {p : Progress} {t' t'' : Task} {w' w'' : World σ} :
      Lives host allowed t w t' w' → host.Answers (·.resume clock t') w' (p, t'') w'' →
      Lives host allowed t w t'' w''
  | elsewhere {t' : Task} {w' w'' : World σ} : Lives host allowed t w t' w' → allowed w'' →
      Lives host allowed t w t' w''

/-- Resuming a task gives control back after `n` frames of its run. -/
def GivesBack (host : Host σ) (clock : Clock) (t : Task) (w : World σ) (n : Nat) : Prop :=
  ∃ answer w', host.Answers (·.resume clock t) w answer w' ∧
    match t.machine? with
    | Option.none => n = 0 ∧ w' = w
    | some m => ∃ calls a, host.Reaches n calls (.pending m) w a w' ∧ answer = t.after a

end Host

/-- A task whose slices have no budget, at a machine that holds nothing but the library and natives
of the host. -/
structure Task.Tame (natives : String → Prop) (inside : ScopeId → Prop) (batch : Nat) (t : Task) :
    Prop where
  machine : ∀ m, t.machine? = some m → m.Tame natives inside
  budget : t.budget = 0
  batch : t.batch = batch

namespace Host.Quiet

variable {host : Host σ} {w w' w'' : World σ} {m : Machine} {t t' : Task} {batch : Nat}

/-- A slice without a budget is one batch. -/
theorem slice_total (quiet : host.Quiet natives inside keeps) (tame : w.Tame natives inside keeps)
    (machine : m.Tame natives inside) (clock : Clock) (batch : Nat) :
    ∃ n calls a w', host.Slice clock 0 batch 0 n calls m w a w' ∧ n ≤ batch := by
  obtain ⟨k, calls, a, w', reach, within, full, -, -⟩ := quiet.reaches_total tame machine batch
  cases a with
  | done r => exact ⟨k, calls, _, w', .ended reach within, within⟩
  | pending m' =>
    obtain rfl := full m' rfl
    exact ⟨k, calls, _, w', .stopped reach (Nat.zero_le _), within⟩

theorem givesBack (quiet : host.Quiet natives inside keeps) (tame : w.Tame natives inside keeps)
    (task : t.Tame natives inside batch) (clock : Clock) :
    ∃ n, n ≤ batch ∧ host.GivesBack clock t w n := by
  obtain ⟨machine?, budget, size, slices⟩ := t
  obtain rfl : budget = 0 := task.budget
  obtain rfl : size = batch := task.batch
  cases machine? with
  | none => exact ⟨0, Nat.zero_le _, _, w, answers_pure.mpr ⟨rfl, rfl⟩, rfl, rfl⟩
  | some m =>
    obtain ⟨n, calls, a, w', slice, within⟩ :=
      quiet.slice_total tame (task.machine m rfl) clock size
    exact ⟨n, within, _, w', resume_iff.mpr ⟨a, n, calls, slice, rfl⟩, calls, a, slice.reaches, rfl⟩

theorem resumed (quiet : host.Quiet natives inside keeps) (tame : w.Tame natives inside keeps)
    (task : t.Tame natives inside batch) {clock : Clock} {p : Progress}
    (resumes : host.Answers (·.resume clock t) w (p, t') w') :
    w'.Tame natives inside keeps ∧ t'.Tame natives inside batch := by
  obtain ⟨machine?, budget, size, slices⟩ := t
  cases machine? with
  | none =>
    obtain ⟨same, rfl⟩ := answers_pure.mp resumes
    cases same
    exact ⟨tame, task⟩
  | some m =>
    obtain ⟨a, n, calls, slice, same⟩ := resume_iff.mp resumes
    obtain ⟨after, known⟩ := quiet.answers tame (fun below => below.runSlice _ _ _ below.fuel _ _)
      (slice_iff.mpr ⟨n, calls, slice⟩)
      fun g serves => serves.runSlice_matches clock budget size g.fuel 0 (task.machine m rfl)
    refine ⟨after, ?_⟩
    cases known with
    | done _ =>
      cases same
      exact ⟨nofun, task.budget, task.batch⟩
    | pending machine =>
      cases same
      refine ⟨fun m found => ?_, task.budget, task.batch⟩
      cases found
      exact machine

theorem lives (quiet : host.Quiet natives inside keeps) (tame : w.Tame natives inside keeps)
    (task : t.Tame natives inside batch)
    (lives : host.Lives (World.Tame natives inside keeps) t w t' w') :
    w'.Tame natives inside keeps ∧ t'.Tame natives inside batch := by
  induction lives with
  | started => exact ⟨tame, task⟩
  | resumed _ resumes ih => exact quiet.resumed ih.1 ih.2 resumes
  | elsewhere _ allowed ih => exact ⟨allowed, ih.2⟩

/-- Every step of an engine comes to an end, so a run in slices always gives control back. With the
library and natives of a host that name no callable in their place, every compilation and every
invocation answers, also where `call` and `apply` invoke each other or themselves, and so does every
frame of a run. A task whose slices have no budget gives control back after one batch, whenever it
is resumed, and whether its program comes to an end or not. -/
theorem always_gives_back (quiet : host.Quiet natives inside keeps) {env : Environment}
    (tame : w.Tame natives inside keeps) (around : ∀ x ∈ env.chain, inside x) :
    (∀ e : Value, e.Tame natives inside → ∃ s w', host.Answers (·.compile env e) w s w') ∧
    (∀ c : Callable, Value.Tame natives inside (.callable c) →
      ∀ args : List Value, (∀ v ∈ args, v.Tame natives inside) →
        ∃ answer w', host.Answers (fun g => (g.invoke c args).run) w answer w') ∧
    (∀ m : Machine, m.Tame natives inside → ∃ a w', host.Steps m w a w') ∧
    ∀ (e : Value) (s : Stream) (w' : World σ), e.Tame natives inside →
      host.Answers (·.compile env e) w s w' → ∀ (cap : BacktraceCap) (minOps : Nat) (t : Task)
      (w'' : World σ), host.Lives (World.Tame natives inside keeps)
        (.start (.start s cap) 0 minOps) w' t w'' →
      ∀ clock : Clock, ∃ n, n ≤ max minOps 1 ∧ host.GivesBack clock t w'' n := by
  refine ⟨fun e known => tame.compiles host around known,
    fun c callee args all => quiet.invokes_total tame callee all,
    fun m machine => quiet.steps_total tame machine,
    fun e s w' known compiled cap minOps t w'' lives clock => ?_⟩
  obtain ⟨after, stream⟩ := quiet.answers tame (fun below => below.compile env e) compiled
    fun _ serves => serves.compile_matches ⟨rfl, around⟩ known
  have start : (Task.start (.start s cap) 0 minOps).Tame natives inside (max minOps 1) := by
    refine ⟨fun m found => ?_, rfl, rfl⟩
    cases found
    exact .start stream cap
  obtain ⟨last, task⟩ := quiet.lives after start lives
  exact quiet.givesBack last task clock

end Host.Quiet

/-! ### A program that never ends -/

theorem World.Tame.openRoot {w : World σ} {table : Table} (tame : w.Tame natives inside keeps)
    (known : ∀ {name : String} {v : Value}, table[name]? = some v → v.Tame natives inside) :
    (w.openRoot table).2.Tame natives inside keeps where
  bound {x name v} member found := by
    by_cases new : x = w.scopes.tables.size
    · subst new
      exact known (Scopes.local?_openRoot_self.symm.trans found)
    · exact tame.bound member ((Scopes.local?_openRoot_other new).symm.trans found)
  unopened {x} more := by
    have grown : (w.openRoot table).2.scopes.tables.size = w.scopes.tables.size + 1 :=
      Scopes.tables_openRoot
    exact tame.unopened (by omega)
  host := tame.host

namespace Extension

/-- Writing to the log leaves every scope alone. -/
theorem log_quiet : Extension.host.Quiet (· = "log") (fun _ => True) fun _ => True where
  leaves := by
    rintro name args w rfl - tame
    exact ⟨tame.bound, tame.unopened, trivial⟩
  replies := by
    rintro name args w rfl all -
    refine .ok (.answer (.value ?_))
    rcases List.mem_cons.mp (List.getLastD_mem_cons (l := args) (a := Value.nil)) with none | last
    · rw [none]
      exact .nil
    · exact all _ last
  final := by
    rintro name args w c args' rfl - -
    exact nofun

/-- `((lambda () (log) (recur)))`, with the native in the place of its name -/
def endless : Value :=
  .list [Library.apply (.form .lambda) [.list [], .list [.callable (.native (.host "log"))],
    .list [.symbol Symbol.selfName]]]

theorem endless_tame : endless.Tame (· = "log") fun _ => True := by
  have native : Value.Tame (· = "log") (fun _ => True) (.callable (.native (.host "log"))) :=
    .native (.inr ⟨_, rfl, rfl⟩)
  have function : Value.Tame (· = "log") (fun _ => True) (Library.apply (.form .lambda)
      [.list [], .list [.callable (.native (.host "log"))], .list [.symbol Symbol.selfName]]) :=
    Library.apply_alike (.form (.inl trivial)) (.cons (.list .nil) (.cons (.list (.cons native .nil))
      (.cons (.list (.cons (.symbol _) .nil)) .nil)))
  exact .list (.cons function .nil)

/-- The library in a world of its own. -/
def plain : Environment × World Log :=
  World.openRoot ⟨{}, 0, []⟩ Library.table

theorem plain_tame : plain.2.Tame (· = "log") (fun _ => True) fun _ => True :=
  World.Tame.openRoot (w := ⟨{}, 0, []⟩)
    ⟨fun _ found => absurd found (by simp [Scopes.local?, Scopes.table]), fun _ => trivial, trivial⟩
    Library.table_alike

end Extension

open Extension in
/-- A program that goes on for ever gives control back whenever its task is resumed. -/
theorem Host.always_gives_back_endless : ∃ s w,
    Extension.host.Answers (·.compile plain.1 endless) plain.2 s w ∧
    ∀ (minOps : Nat) (t : Task) (w' : World Log),
      Extension.host.Lives (World.Tame (· = "log") (fun _ => True) fun _ => True)
        (.start (.start s 10) 0 minOps) w t w' →
      ∀ clock : Clock, ∃ n, n ≤ max minOps 1 ∧ Extension.host.GivesBack clock t w' n := by
  have around : ∀ x ∈ plain.1.chain, (fun _ => True) x := fun _ _ => trivial
  obtain ⟨compiles, -, -, gives⟩ := log_quiet.always_gives_back plain_tame around
  obtain ⟨s, w, compiled⟩ := compiles endless endless_tame
  exact ⟨s, w, compiled, gives endless s w endless_tame compiled 10⟩

end CooperativeLisp

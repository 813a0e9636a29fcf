import Mathlib.Logic.Relation
import CooperativeLisp.Proofs.Correspondence

/-!
What becomes of the scopes in the course of time. They change in two ways only: an invocation opens a
scope for its arguments, and a name is bound. A root binds a name once, so whatever it binds it binds
for ever; a scope that no one binds in keeps the arguments it was opened with. That an engine changes
the scopes in no other way is the correspondence of a world with itself.
-/

namespace CooperativeLisp

open List (Forall₂)
open Relation (ReflTransGen)

variable {σ : Type} {roots : ScopeId → Prop} {children : Prop} {scopes scopes' scopes'' : Scopes}

/-- The handle of a scope that has been opened: its chain ends at a root and passes no other. -/
structure Environment.Genuine (roots : ScopeId → Prop) (scopes : Scopes) (env : Environment) :
    Prop where
  opened : ∀ x ∈ env.chain, x < scopes.tables.size
  outermost : roots env.rootScope
  inner : ∀ x ∈ env.chain.dropLast, ¬ roots x

/-- The likeness of a world with itself: genuine environments stand for themselves. -/
def Likeness.own (roots : ScopeId → Prop) (scopes : Scopes) : Likeness where
  environment env env' := env = env' ∧ env.Genuine roots scopes
  identity := Eq
  admits _ := True

/-- A value of which every closure has a genuine environment. -/
def Value.Held (roots : ScopeId → Prop) (scopes : Scopes) (v : Value) : Prop :=
  v.Alike (.own roots scopes) v

namespace Scopes

/-- Roots have been opened, and all that is bound is held. -/
structure Sound (roots : ScopeId → Prop) (scopes : Scopes) : Prop where
  opened : ∀ {x}, roots x → x < scopes.tables.size
  held : ∀ {x name v}, scopes.local? x name = some v → v.Held roots scopes

/-- A name is bound in a genuine environment, which is a root unless binding in children is
allowed. -/
inductive Binds (roots : ScopeId → Prop) (children : Prop) (scopes scopes' : Scopes) : Prop
  | intro {env : Environment} {name : String} {v : Value} : env.Genuine roots scopes →
    env.isRoot = true ∨ children → v.Held roots scopes → scopes.bind env name v = .ok scopes' →
    Binds roots children scopes scopes'

/-- What later scopes keep of earlier ones. A root keeps the values of the names it binds and no
reserved name is added to it. Unless binding in children is allowed, every other scope keeps its
table, and whatever has been opened in between has the table of an invocation's arguments. -/
structure Kept (roots : ScopeId → Prop) (children : Prop) (scopes scopes' : Scopes) : Prop where
  opened : scopes.tables.size ≤ scopes'.tables.size
  bound : ∀ {x name v}, roots x → scopes.local? x name = some v → scopes'.local? x name = some v
  reserved : ∀ {x name}, roots x → Symbol.isReserved name = true →
    scopes'.local? x name = scopes.local? x name
  inner : ¬ children → ∀ {x}, x < scopes.tables.size → ¬ roots x → scopes'.table x = scopes.table x
  fresh : ¬ children → ∀ {x}, scopes.tables.size ≤ x → x < scopes'.tables.size →
    ∃ (c : Closure) (args : List Value), scopes'.table x = Table.ofEntries (c.arguments args)

end Scopes

/-! ### Genuine environments -/

namespace Environment.Genuine

variable {env : Environment}

theorem grows (more : scopes.tables.size ≤ scopes'.tables.size)
    (genuine : env.Genuine roots scopes) : env.Genuine roots scopes' :=
  ⟨fun x member => Nat.lt_of_lt_of_le (genuine.opened x member) more, genuine.outermost,
    genuine.inner⟩

/-- Only the handle of a root has its scope in it. -/
theorem isRoot_of_root (genuine : env.Genuine roots scopes) (root : roots env.scope) :
    env.isRoot = true := by
  obtain ⟨scope, outer⟩ := env
  cases outer with
  | nil => rfl
  | cons next outer => exact absurd root (genuine.inner scope (by simp [chain]))

theorem root_of_isRoot (genuine : env.Genuine roots scopes) (atRoot : env.isRoot = true) :
    roots env.scope := by
  have outermost := genuine.outermost
  obtain ⟨scope, outer⟩ := env
  cases outer with
  | nil => exact outermost
  | cons next outer => cases atRoot

theorem root (genuine : env.Genuine roots scopes) : env.root.Genuine roots scopes where
  opened x member := by
    obtain ⟨scope, outer⟩ := env
    obtain rfl := List.mem_singleton.mp member
    refine genuine.opened _ ?_
    show outer.getLastD scope ∈ scope :: outer
    cases outer with
    | nil => exact List.mem_cons_self
    | cons next outer =>
      rw [List.getLastD_cons]
      exact List.mem_cons_of_mem _ List.getLastD_mem_cons
  outermost := genuine.outermost
  inner := nofun

/-- A scope that is opened inside a genuine environment has a genuine handle. -/
theorem enter (genuine : env.Genuine roots scopes) (fresh : ¬ roots scopes.tables.size)
    (more : scopes.tables.size < scopes'.tables.size) :
    Environment.Genuine roots scopes' ⟨scopes.tables.size, env.chain⟩ where
  opened x member := by
    rcases List.mem_cons.mp member with rfl | outer
    · exact more
    · exact Nat.lt_trans (genuine.opened x outer) more
  outermost := by
    have same : Environment.rootScope ⟨scopes.tables.size, env.chain⟩ = env.rootScope := by
      show (env.scope :: env.outer).getLastD _ = env.outer.getLastD _
      rw [List.getLastD_cons]
    rw [same]
    exact genuine.outermost
  inner x member := by
    rcases List.mem_cons.mp (List.dropLast_cons_of_ne_nil (List.cons_ne_nil _ _) ▸ member) with
      rfl | outer
    · exact fresh
    · exact genuine.inner x outer

end Environment.Genuine

/-! ### What is held -/

theorem Likeness.own_le (more : scopes.tables.size ≤ scopes'.tables.size) :
    (Likeness.own roots scopes).Le (.own roots scopes') :=
  ⟨fun ⟨same, genuine⟩ => ⟨same, genuine.grows more⟩, id, id⟩

theorem Value.Held.grows {v : Value} (more : scopes.tables.size ≤ scopes'.tables.size)
    (held : v.Held roots scopes) : v.Held roots scopes' :=
  Value.Alike.mono (Likeness.own_le more) held

theorem Value.heldAll {vs : List Value} : Forall₂ (Value.Alike (.own roots scopes)) vs vs ↔
    ∀ v ∈ vs, v.Held roots scopes :=
  List.forall₂_same

theorem Likeness.own_exact : (Likeness.own roots scopes).Exact :=
  ⟨And.left, id⟩

theorem Scopes.Sound.find? (sound : scopes.Sound roots) {name : String} {v : Value}
    {chain : List ScopeId} (found : scopes.find? name chain = some v) : v.Held roots scopes := by
  induction chain with
  | nil => cases found
  | cons x chain ih =>
    unfold Scopes.find? at found
    split at found
    · rename_i here
      cases found
      exact sound.held here
    · exact ih found

/-! ### What changes keep -/

namespace Scopes.Kept

variable {env : Environment} {name : String} {v : Value}

theorem refl (scopes : Scopes) : scopes.Kept roots children scopes where
  opened := Nat.le_refl _
  bound _ found := found
  reserved _ _ := rfl
  inner _ _ _ _ := rfl
  fresh _ _ opened unopened := absurd opened (Nat.not_le.mpr unopened)

theorem trans (sound : scopes.Sound roots) (first : scopes.Kept roots children scopes')
    (second : scopes'.Kept roots children scopes'') : scopes.Kept roots children scopes'' where
  opened := Nat.le_trans first.opened second.opened
  bound root found := second.bound root (first.bound root found)
  reserved root marker := (second.reserved root marker).trans (first.reserved root marker)
  inner never _ opened other :=
    (second.inner never (Nat.lt_of_lt_of_le opened first.opened) other).trans
      (first.inner never opened other)
  fresh never x unopened opened := by
    rcases Nat.lt_or_ge x scopes'.tables.size with before | after
    · rw [second.inner never before fun root => absurd (sound.opened root) (Nat.not_lt.mpr unopened)]
      exact first.fresh never unopened before
    · exact second.fresh never after opened

/-- Names that are bound stay bound to the same values, wherever no one binds in children. -/
theorem find? (kept : scopes.Kept roots children scopes') (never : ¬ children) (scope : ScopeId)
    (outer : List ScopeId) (opened : ∀ x ∈ scope :: outer, x < scopes.tables.size)
    (outermost : roots (outer.getLastD scope)) (inner : ∀ x ∈ (scope :: outer).dropLast, ¬ roots x)
    (found : scopes.find? name (scope :: outer) = some v) :
    scopes'.find? name (scope :: outer) = some v := by
  induction outer generalizing scope with
  | nil =>
    have here : scopes.local? scope name = some v := by
      unfold Scopes.find? at found
      split at found
      · rename_i here
        cases found
        exact here
      · cases found
    have root : roots scope := outermost
    unfold Scopes.find?
    rw [kept.bound root here]
  | cons next outer ih =>
    have same : scopes'.local? scope name = scopes.local? scope name := by
      rw [local?, local?, kept.inner never (opened scope List.mem_cons_self)
        (inner scope (by simp))]
    unfold Scopes.find? at found ⊢
    rw [same]
    split at found
    · exact found
    · refine ih next (fun x member => opened x (List.mem_cons_of_mem _ member)) ?_ ?_ found
      · rwa [List.getLastD_cons] at outermost
      · exact fun x member => inner x (List.mem_cons_of_mem _ member)

theorem get? (kept : scopes.Kept roots children scopes') (never : ¬ children)
    (genuine : env.Genuine roots scopes) (found : scopes.get? env name = some v) :
    scopes'.get? env name = some v :=
  kept.find? never env.scope env.outer genuine.opened genuine.outermost genuine.inner found

/-- The scope of an invocation is opened. -/
theorem openChild (sound : scopes.Sound roots) (c : Closure) (args : List Value) :
    scopes.Kept roots children
      (scopes.openChild c.env (Table.ofEntries (c.arguments args))).2 where
  opened := Nat.le_of_lt (by rw [Scopes.tables_openChild]; exact Nat.lt_succ_self _)
  bound root found := by
    rwa [Scopes.local?_openChild_other (Nat.ne_of_lt (sound.opened root))]
  reserved root _ := Scopes.local?_openChild_other (Nat.ne_of_lt (sound.opened root))
  inner _ x opened _ := by
    simp [Scopes.openChild, Scopes.table, Array.getElem?_push, Nat.ne_of_lt opened]
  fresh _ x unopened opened := by
    rw [Scopes.tables_openChild] at opened
    obtain rfl : x = scopes.tables.size := by omega
    exact ⟨c, args, by simp [Scopes.openChild, Scopes.table]⟩

end Scopes.Kept

theorem Scopes.Sound.openChild (sound : scopes.Sound roots) {env : Environment} {table : Table}
    (held : ∀ {name : String} {v : Value}, table[name]? = some v → v.Held roots scopes) :
    (scopes.openChild env table).2.Sound roots := by
  have more : scopes.tables.size ≤ (scopes.openChild env table).2.tables.size := by
    rw [Scopes.tables_openChild]
    exact Nat.le_succ _
  refine ⟨fun root => Nat.lt_of_lt_of_le (sound.opened root) more, fun {x name v} found => ?_⟩
  refine Value.Held.grows more ?_
  by_cases new : x = scopes.tables.size
  · subst new
    rw [Scopes.local?_openChild_self] at found
    exact held found
  · rw [Scopes.local?_openChild_other new] at found
    exact sound.held found

theorem Scopes.Binds.kept (binds : scopes.Binds roots children scopes') :
    scopes.Kept roots children scopes' := by
  obtain ⟨genuine, allowed, -, bound⟩ := binds
  rename_i env name v
  obtain ⟨free, fresh, rfl⟩ := Scopes.bind_eq_ok bound
  have size : (scopes.define env.scope name v).tables.size = scopes.tables.size :=
    Scopes.tables_define
  refine ⟨Nat.le_of_eq size.symm, fun {x other u} root found => ?_, fun {x other} _ marker => ?_,
    fun never {x} opened other => ?_, fun _ {x} unopened opened => ?_⟩
  · rw [Scopes.local?_define, if_neg ?_]
    · exact found
    rintro ⟨rfl, rfl, -⟩
    rw [genuine.isRoot_of_root root, Scopes.binds_eq, found] at fresh
    cases fresh
  · rw [Scopes.local?_define, if_neg ?_]
    rintro ⟨-, rfl, -⟩
    cases free.symm.trans marker
  · have elsewhere : env.scope ≠ x := by
      rintro rfl
      exact other (genuine.root_of_isRoot (allowed.resolve_right never))
    simp [Scopes.define, Scopes.table, Array.getElem?_modify, elsewhere]
  · exact absurd (size ▸ opened) (Nat.not_lt.mpr unopened)

theorem Scopes.Binds.sound (binds : scopes.Binds roots children scopes')
    (sound : scopes.Sound roots) : scopes'.Sound roots := by
  obtain ⟨-, -, held, bound⟩ := binds
  rename_i env name v
  obtain ⟨-, -, rfl⟩ := Scopes.bind_eq_ok bound
  have size : scopes.tables.size = (scopes.define env.scope name v).tables.size :=
    Scopes.tables_define.symm
  refine ⟨fun root => size ▸ sound.opened root, fun {x other u} found => ?_⟩
  refine Value.Held.grows (Nat.le_of_eq size) ?_
  rw [Scopes.local?_define] at found
  split at found
  · cases found
    exact held
  · exact sound.held found

/-- However many names are bound one after the other. -/
theorem Scopes.Binds.all (sound : scopes.Sound roots)
    (binds : ReflTransGen (Scopes.Binds roots children) scopes scopes') :
    scopes.Kept roots children scopes' ∧ scopes'.Sound roots := by
  induction binds with
  | refl => exact ⟨.refl _, sound⟩
  | tail _ last ih => exact ⟨ih.1.trans sound last.kept, last.sound ih.2⟩

/-- A series of moments between two scopes. Each keeps what the one before it has bound. -/
inductive Scopes.Course (roots : ScopeId → Prop) (children : Prop) :
    Scopes → List Scopes → Scopes → Prop
  | stay {scopes : Scopes} : Course roots children scopes [] scopes
  | move {scopes scopes₁ scopes' : Scopes} {moments : List Scopes} :
      scopes.Kept roots children scopes₁ → scopes₁.Sound roots →
      Course roots children scopes₁ moments scopes' →
      Course roots children scopes (scopes₁ :: moments) scopes'

namespace Scopes.Course

variable {moments more : List Scopes}

theorem append (first : scopes.Course roots children moments scopes')
    (second : scopes'.Course roots children more scopes'') :
    scopes.Course roots children (moments ++ more) scopes'' := by
  induction first with
  | stay => exact second
  | move kept sound _ ih => exact .move kept sound (ih second)

theorem kept (course : scopes.Course roots children moments scopes')
    (sound : scopes.Sound roots) : scopes.Kept roots children scopes' := by
  induction course with
  | stay => exact .refl _
  | move first after _ ih => exact first.trans sound (ih after)

theorem last (course : scopes.Course roots children moments scopes') :
    moments.getLastD scopes = scopes' := by
  induction course with
  | stay => rfl
  | move _ _ _ ih => rwa [List.getLastD_cons]

/-- From any moment on, all later ones keep what it has bound. -/
theorem pairwise (course : scopes.Course roots children moments scopes')
    (sound : scopes.Sound roots) : (scopes :: moments).Pairwise (Kept roots children) := by
  induction course with
  | stay => exact List.pairwise_singleton ..
  | move first after _ ih =>
    have later := ih after
    refine List.pairwise_cons.mpr ⟨fun moment member => ?_, later⟩
    rcases List.mem_cons.mp member with rfl | member
    · exact first
    · exact first.trans sound ((List.pairwise_cons.mp later).1 moment member)

end Scopes.Course

/-! ### A world and itself -/

/-- What a function of the host does in a world: it binds names, and hands out only what is held
then. The host's state holds no more than it may. -/
structure HostAction.Writes {α : Type} (roots : ScopeId → Prop) (children : Prop)
    (keeps : Scopes → σ → Prop) (R : Likeness → α → α → Prop) (w : World σ)
    (x : HostAction σ α) : Prop where
  binds : ReflTransGen (Scopes.Binds roots children) w.scopes (x.run.run w).2.scopes
  keeps : keeps (x.run.run w).2.scopes (x.run.run w).2.host
  result : Matched (.own roots (x.run.run w).2.scopes) (R (.own roots (x.run.run w).2.scopes))
    (x.run.run w).1 (x.run.run w).1

/-- The scopes are sound, and the host's state holds no more than it may. -/
structure World.Sound (roots : ScopeId → Prop) (keeps : Scopes → σ → Prop) (w : World σ) :
    Prop where
  scopes : w.scopes.Sound roots
  host : keeps w.scopes w.host

/-- A host whose functions touch environments only by binding names in them. `keeps` says what its
state may hold, which later scopes do not change. -/
structure Host.Writes (host : Host σ) (roots : ScopeId → Prop) (children : Prop)
    (keeps : Scopes → σ → Prop) : Prop where
  grows : ∀ {scopes scopes' s}, scopes.Kept roots children scopes' → keeps scopes s →
    keeps scopes' s
  native : ∀ {w : World σ} {name args}, w.Sound roots keeps → (∀ v ∈ args, v.Held roots w.scopes) →
    (host.native name args).Writes roots children keeps Reply.Alike w
  form : ∀ {w : World σ} {name operands env}, w.Sound roots keeps →
    (∀ v ∈ operands, v.Held roots w.scopes) → env.Genuine roots w.scopes →
    (host.form name operands env).Writes roots children keeps Answer.Alike w
  expander : ∀ {w : World σ} {name operands env}, w.Sound roots keeps →
    (∀ v ∈ operands, v.Held roots w.scopes) → env.Genuine roots w.scopes →
    (host.expander name operands env).Writes roots children keeps Value.Alike w

/-- Sound worlds, each beside itself. -/
@[reducible]
def Correspondence.own (roots : ScopeId → Prop) (children : Prop) (keeps : Scopes → σ → Prop) :
    Correspondence σ where
  Moment := { w : World σ // w.Sound roots keeps }
  left k := k.1
  right k := k.1
  likeness k := .own roots k.1.scopes
  Later k k' := k.1.scopes.Kept roots children k'.1.scopes
  refl _ := .refl _
  trans {k _ _} first second := first.trans k.2.scopes second
  grows later := Likeness.own_le later.opened

/-- A failed attempt to bind a name changes nothing, and a successful one binds it. -/
theorem World.bind_binds {w : World σ} {env : Environment} {name : String} {v : Value}
    (allowed : env.isRoot = true ∨ children) (genuine : env.Genuine roots w.scopes)
    (held : v.Held roots w.scopes) :
    ReflTransGen (Scopes.Binds roots children) w.scopes (w.bind env name v).2.scopes := by
  unfold World.bind
  cases bound : w.scopes.bind env name v with
  | error e => exact .refl
  | ok scopes => exact .single (.intro genuine allowed held bound)

theorem World.bind_host {w : World σ} {env : Environment} {name : String} {v : Value} :
    (w.bind env name v).2.host = w.host := by
  unfold World.bind
  cases w.scopes.bind env name v <;> rfl

namespace World.Sound

variable {keeps : Scopes → σ → Prop} {w : World σ}

/-- Whatever a change of the scopes keeps, the host's state is still what it may be. -/
theorem changes {host : Host σ} (writes : host.Writes roots children keeps) {scopes : Scopes}
    (sound : w.Sound roots keeps) (kept : w.scopes.Kept roots children scopes)
    (after : scopes.Sound roots) : World.Sound roots keeps { w with scopes } :=
  ⟨after, writes.grows kept sound.host⟩

theorem enter {host : Host σ} (writes : host.Writes roots children keeps) {c : Closure}
    {args : List Value} (sound : w.Sound roots keeps)
    (callee : Callable.Alike (.own roots w.scopes) (.closure c) (.closure c))
    (held : Forall₂ (Value.Alike (.own roots w.scopes)) args args) :
    (w.enter c args).2.Sound roots keeps := by
  refine sound.changes writes (.openChild sound.scopes c args)
    (sound.scopes.openChild fun {name v} bound => ?_)
  have entry := Table.ofEntries_alike (Closure.arguments_alike callee held) name
  rw [bound] at entry
  cases entry with
  | some same => exact same

theorem bind {host : Host σ} (sound : w.Sound roots keeps)
    (writes : host.Writes roots children keeps) {env : Environment} {name : String} {v : Value}
    (allowed : env.isRoot = true ∨ children) (genuine : env.Genuine roots w.scopes)
    (held : v.Held roots w.scopes) :
    w.scopes.Kept roots children (w.bind env name v).2.scopes ∧
      (w.bind env name v).2.Sound roots keeps := by
  have binds : ReflTransGen (Scopes.Binds roots children) w.scopes (w.bind env name v).2.scopes :=
    World.bind_binds allowed genuine held
  obtain ⟨kept, after⟩ := Scopes.Binds.all sound.scopes binds
  refine ⟨kept, after, ?_⟩
  rw [World.bind_host]
  exact writes.grows kept sound.host

end World.Sound

/-- A refusal to bind a name changes nothing. -/
theorem World.bind_refused {w w' : World σ} {env : Environment} {name : String} {v : Value}
    {e : Error} (refused : w.bind env name v = (.error e, w')) : w' = w := by
  unfold World.bind at refused
  cases bound : w.scopes.bind env name v with
  | ok scopes =>
    rw [bound] at refused
    cases refused
  | error e' =>
    rw [bound] at refused
    cases refused
    rfl

/-- A refusal to bind a name says the same in every world. -/
theorem World.bind_refusal {w : World σ} {env : Environment} {name : String} {v : Value}
    {ρ : Likeness} {e : Error} (refused : (w.bind env name v).1 = .error e) : e.Alike ρ e := by
  unfold World.bind at refused
  cases bound : w.scopes.bind env name v with
  | ok scopes =>
    rw [bound] at refused
    cases refused
  | error e' =>
    rw [bound] at refused
    cases refused
    unfold Scopes.bind at bound
    split at bound
    · cases bound
      exact .ofFault (.refl _)
    · split at bound
      · cases bound
        exact .ofFault (.refl _)
      · cases bound

theorem HostAction.Writes.leads {keeps : Scopes → σ → Prop} {α : Type}
    {R : Likeness → α → α → Prop} {x : HostAction σ α}
    (k : (Correspondence.own roots children keeps).Moment) (writes : x.Writes roots children keeps R k.1) :
    (Correspondence.own roots children keeps).Leads k
      ((Correspondence.own roots children keeps).Both fun k =>
        R ((Correspondence.own roots children keeps).likeness k))
      (x.run.run k.1) (x.run.run k.1) := by
  obtain ⟨kept, sound⟩ := Scopes.Binds.all k.2.scopes writes.binds
  exact ⟨⟨_, sound, writes.keeps⟩, kept, rfl, rfl, writes.result⟩

theorem Host.Writes.respected {host : Host σ} {keeps : Scopes → σ → Prop}
    (writes : host.Writes roots children keeps) :
    (Correspondence.own roots children keeps).Respected host where
  lookup := by
    rintro ⟨w, sound⟩ env _ name ⟨rfl, -⟩
    cases found : w.scopes.get? env name with
    | none => exact .none
    | some v => exact .some (sound.scopes.find? found)
  opens := by
    rintro ⟨w, sound⟩ c d args args' same all
    obtain rfl := Likeness.own_exact.eqAll all
    cases Likeness.own_exact.eq same
    refine ⟨⟨_, sound.enter writes same all⟩, .openChild sound.scopes c args, rfl, rfl, rfl, ?_⟩
    cases same with
    | closure _ _ around =>
      refine around.2.enter (fun root => ?_) ?_
      · exact Nat.lt_irrefl _ (sound.scopes.opened root)
      · rw [World.enter_size]
        exact Nat.lt_succ_self _
  makes k :=
    ⟨⟨{ k.1 with closures := k.1.closures + 1 }, k.2.scopes, k.2.host⟩, .refl _, rfl, rfl, rfl⟩
  root _ around := ⟨congrArg Environment.root around.1, around.2.root⟩
  binds := by
    rintro k env _ cap - ⟨rfl, -⟩ name
    rfl
  bind := by
    rintro ⟨w, sound⟩ env _ cap v v' - ⟨rfl, genuine⟩ same name
    obtain rfl := Likeness.own_exact.eq same
    obtain ⟨kept, after⟩ := World.Sound.bind sound writes (Or.inl env.root_isRoot) genuine.root same
    refine ⟨⟨_, after⟩, kept, rfl, rfl, ?_⟩
    cases ended : (w.bind env.root name v).1 with
    | ok _ => exact .ok trivial
    | error e => exact .error (World.bind_refusal ended)
  native := by
    rintro k name args _ - all
    obtain rfl := Likeness.own_exact.eqAll all
    exact (writes.native k.2 (Value.heldAll.mp all)).leads k
  form := by
    rintro k name operands _ env _ - all ⟨rfl, genuine⟩
    obtain rfl := Likeness.own_exact.eqAll all
    exact (writes.form k.2 (Value.heldAll.mp all) genuine).leads k
  expander := by
    rintro k name operands _ env _ - all ⟨rfl, genuine⟩
    obtain rfl := Likeness.own_exact.eqAll all
    exact (writes.expander k.2 (Value.heldAll.mp all) genuine).leads k

/-- What an engine answers in a sound world is held in the world that it leaves, which keeps what
has been bound. -/
theorem Host.Writes.answers {host : Host σ} {keeps : Scopes → σ → Prop} {α : Type}
    {R : (Correspondence.own roots children keeps).Moment → α → α → Prop}
    {f : Engine σ → Effect σ α} {a : α} {w w' : World σ} (writes : host.Writes roots children keeps)
    (sound : w.Sound roots keeps) (steady : Engine.Steady f) (answers : host.Answers f w a w')
    (same : ∀ g, (Correspondence.own roots children keeps).Serves g →
      (Correspondence.own roots children keeps).Matches ⟨w, sound⟩ R (f g) (f g)) :
    ∃ after : w'.Sound roots keeps, w.scopes.Kept roots children w'.scopes ∧ R ⟨w', after⟩ a a := by
  let now : (Correspondence.own roots children keeps).Moment := ⟨w, sound⟩
  obtain ⟨k, b, later, rfl, again, related⟩ := writes.respected.answers (k := now) answers same
  obtain ⟨rfl, -⟩ := again.unique steady answers
  exact ⟨k.2, later, related⟩

end CooperativeLisp

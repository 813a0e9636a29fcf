import Mathlib.Tactic.ByContra
import CooperativeLisp.Proofs.Scopes

/-!
Looking names up. A ledger beside the scopes keeps all that has been written to them. Main statement:
a name has the latest value that was written in the nearest scope with an entry for it, binding it
changes this for the environments that see the scope and for no others, and the listing of an
environment holds exactly what looking up finds.
-/

namespace CooperativeLisp

/-- What has been written, the latest first: the scope, the name and the value. -/
abbrev Ledger := List (ScopeId × String × Value)

/-- The latest value that was written for a name in a scope. -/
def Ledger.latest? (name : String) (scope : ScopeId) : Ledger → Option Value
  | [] => none
  | (target, other, v) :: earlier =>
    if scope = target ∧ name = other then some v else latest? name scope earlier

/-- The scope is on the chain of the environment, and no nearer one has an entry for the name. -/
def Ledger.Shows (ledger : Ledger) (env : Environment) (name : String) (scope : ScopeId) : Prop :=
  ∃ inner outer, env.chain = inner ++ scope :: outer ∧
    ∀ nearer ∈ inner, ledger.latest? name nearer = none

/-- Scopes that came about by opening roots with the entries of a table, by opening empty scopes
inside of environments and by binding names, with the handles that were handed out and the ledger of
what was written. A binding that is refused writes nothing. -/
inductive Scopes.Made : List Environment → Ledger → Scopes → Prop
  | start : Made [] [] {}
  | root {handles : List Environment} {ledger : Ledger} {scopes : Scopes} (table : Table) :
      Made handles ledger scopes →
      Made ((scopes.openRoot table).1 :: handles)
        (table.toList.map (scopes.tables.size, ·) ++ ledger) (scopes.openRoot table).2
  | child {handles : List Environment} {ledger : Ledger} {scopes : Scopes} {env : Environment} :
      Made handles ledger scopes → env ∈ handles →
      Made ((scopes.openChild env ∅).1 :: handles) ledger (scopes.openChild env ∅).2
  | bind {handles : List Environment} {ledger : Ledger} {scopes scopes' : Scopes}
      {env : Environment} {name : String} {v : Value} : Made handles ledger scopes →
      env ∈ handles → scopes.bind env name v = .ok scopes' →
      Made handles ((env.scope, name, v) :: ledger) scopes'

/-! ### Listings -/

namespace Table

theorem foldl_insertIfNew_get (entries : List (String × Value)) (table : Table) (name : String) :
    (entries.foldl (fun t entry => t.insertIfNew entry.1 entry.2) table)[name]? =
      table[name]?.or (entries.lookup name) := by
  induction entries generalizing table with
  | nil => simp
  | cons entry entries ih =>
    obtain ⟨key, v⟩ := entry
    rw [List.foldl_cons, ih, Std.TreeMap.getElem?_insertIfNew, List.lookup_cons]
    by_cases same : key = name
    · subst same
      by_cases taken : key ∈ table
      · obtain ⟨u, bound⟩ := Option.isSome_iff_exists.mp (Std.TreeMap.mem_iff_isSome_getElem?.mp taken)
        simp [taken]
      · simp [taken]
    · have other : (name == key) = false := beq_eq_false_iff_ne.mpr (Ne.symm same)
      simp [same, other]

theorem lookup_toList (table : Table) (name : String) : table.toList.lookup name = table[name]? :=
  lookup_of_entries fun _ => Std.TreeMap.mem_toList_iff_getElem?_eq_some

/-- Entries that are added below hide nothing. -/
theorem underlay_get (table below : Table) (name : String) :
    (table.underlay below)[name]? = table[name]?.or below[name]? := by
  rw [underlay, Std.TreeMap.foldl_eq_foldl_toList, foldl_insertIfNew_get, lookup_toList]

end Table

namespace Scopes

variable {σ : Type} {scopes : Scopes} {env : Environment} {name : String} {target : ScopeId}
variable {v : Value}

theorem find?_eq_findSome? (chain : List ScopeId) :
    scopes.find? name chain = chain.findSome? (scopes.local? · name) := by
  induction chain with
  | nil => rfl
  | cons scope outer ih =>
    rw [find?, List.findSome?_cons, ih]
    cases scopes.local? scope name <;> rfl

/-- The two walks of a chain agree: merging outwards without overwriting keeps the first hit. -/
theorem visible_get (chain : List ScopeId) :
    (scopes.visible chain)[name]? = scopes.find? name chain := by
  suffices merged : ∀ seen : Table,
      (chain.foldl (fun seen scope => seen.underlay (scopes.table scope)) seen)[name]? =
        seen[name]?.or (scopes.find? name chain) by
    have whole := merged ∅
    rwa [Std.TreeMap.getElem?_emptyc, Option.none_or] at whole
  induction chain with
  | nil => simp [find?]
  | cons scope outer ih =>
    intro seen
    rw [List.foldl_cons, ih, Table.underlay_get, Option.or_assoc, find?]
    congr 1
    show (scopes.local? scope name).or _ = _
    cases scopes.local? scope name <;> rfl

theorem mem_bindings_iff : (name, v) ∈ scopes.bindings env ↔ scopes.get? env name = some v := by
  rw [bindings, Std.TreeMap.mem_toList_iff_getElem?_eq_some, visible_get]
  rfl

theorem bindings_sorted : (scopes.bindings env).Pairwise (fun a b => a.1 < b.1) := by
  refine Std.TreeMap.ordered_keys_toList.imp fun {a b} before => ?_
  exact compareOfLessAndEq_eq_lt.mp before

/-! ### Bindings -/

theorem isReserved_eq_false_iff : Symbol.isReserved name = false ↔
    name ∉ [Symbol.nilName, Symbol.truthName, Symbol.restMarker] := by
  simp [Symbol.isReserved, and_assoc]

/-- Either a binding is refused, or it is made whatever the value. -/
theorem bind_or_refused (w : World σ) (env : Environment) (name : String) (v : Value) :
    (Symbol.isReserved name = false ∧ (env.isRoot && w.scopes.binds env name) = false ∧
        w.bind env name v = (.ok (), { w with scopes := w.scopes.define env.scope name v })) ∨
      ¬ (Symbol.isReserved name = false ∧ (env.isRoot && w.scopes.binds env name) = false) ∧
        ∃ e, w.bind env name v = (.error e, w) := by
  unfold World.bind bind
  by_cases reserved : Symbol.isReserved name = true
  · exact Or.inr ⟨fun free => by simp [reserved] at free, _, by rw [if_pos reserved]⟩
  by_cases taken : (env.isRoot && w.scopes.binds env name) = true
  · exact Or.inr ⟨fun free => by simp [taken] at free, _, by rw [if_neg reserved, if_pos taken]⟩
  · refine Or.inl ⟨Bool.eq_false_iff.mpr reserved, Bool.eq_false_iff.mpr taken, ?_⟩
    rw [if_neg reserved, if_neg taken]

/-- A look-up that comes to the scope finds the value that was bound there. -/
theorem find?_define_shown {inner outer : List ScopeId} (opened : target < scopes.tables.size)
    (free : ∀ nearer ∈ inner, scopes.local? nearer name = none) :
    (scopes.define target name v).find? name (inner ++ target :: outer) = some v := by
  induction inner with
  | nil => simp only [List.nil_append, find?, local?_define, opened, and_self, if_true]
  | cons nearer inner ih =>
    obtain ⟨here, free⟩ := List.forall_mem_cons.mp free
    rw [List.cons_append, find?, local?_define, ih free, here]
    split <;> simp_all

/-- A look-up that does not come to the scope, or looks for another name, finds what it found. -/
theorem find?_define_hidden {chain : List ScopeId} {sought : String}
    (hidden : sought = name → ∀ inner outer, chain = inner ++ target :: outer →
      ∃ nearer ∈ inner, scopes.local? nearer name ≠ none) :
    (scopes.define target name v).find? sought chain = scopes.find? sought chain := by
  induction chain with
  | nil => rfl
  | cons scope outer ih =>
    have apart : ¬ (scope = target ∧ sought = name ∧ target < scopes.tables.size) := by
      rintro ⟨rfl, same, -⟩
      obtain ⟨_, member, -⟩ := hidden same [] outer rfl
      cases member
    rw [find?, find?, local?_define, if_neg apart]
    cases here : scopes.local? scope sought with
    | some u => rfl
    | none =>
      refine ih fun same inner further chain => ?_
      obtain ⟨nearer, member, bound⟩ := hidden same (scope :: inner) further (by rw [chain]; rfl)
      rcases List.mem_cons.mp member with rfl | inside
      · exact absurd (same ▸ here) bound
      · exact ⟨nearer, inside, bound⟩

end Scopes

/-! ### Ledgers -/

namespace Ledger

variable {ledger : Ledger} {name other : String} {scope target : ScopeId} {v : Value}

theorem latest?_none (free : ∀ entry ∈ ledger, entry.1 ≠ scope) :
    ledger.latest? name scope = none := by
  induction ledger with
  | nil => rfl
  | cons entry earlier ih =>
    obtain ⟨apart, free⟩ := List.forall_mem_cons.mp free
    rw [latest?, if_neg fun here => apart here.1.symm]
    exact ih free

/-- The entries of a table are those of the scope that it is opened as. -/
theorem latest?_opened (table : Table) :
    latest? name scope (table.toList.map (target, ·) ++ ledger) =
      (if scope = target then table[name]? else none).or (ledger.latest? name scope) := by
  rw [← table.lookup_toList]
  induction table.toList with
  | nil => simp
  | cons entry entries ih =>
    obtain ⟨other, v⟩ := entry
    rw [List.map_cons, List.cons_append, latest?, ih, List.lookup_cons]
    by_cases here : scope = target
    · by_cases same : name = other
      · simp [here, same]
      · have apart : (name == other) = false := beq_eq_false_iff_ne.mpr same
        simp [here, same, apart]
    · simp [here]

end Ledger

namespace Scopes.Made

variable {σ : Type} {handles : List Environment} {ledger : Ledger} {scopes : Scopes}
variable {env other : Environment} {name sought : String} {v : Value}

/-- Handles name scopes that have been opened. -/
theorem opened (made : scopes.Made handles ledger) :
    ∀ env ∈ handles, ∀ scope ∈ env.chain, scope < scopes.tables.size := by
  induction made with
  | start => exact List.forall_mem_nil _
  | @root handles ledger scopes table _ ih =>
    rw [tables_openRoot]
    refine List.forall_mem_cons.mpr ⟨fun scope member => ?_, fun env handle scope member => ?_⟩
    · obtain rfl := List.mem_singleton.mp member
      exact Nat.lt_succ_self _
    · exact Nat.lt_succ_of_lt (ih env handle scope member)
  | @child handles ledger scopes env _ handle ih =>
    rw [tables_openChild]
    refine List.forall_mem_cons.mpr ⟨fun scope member => ?_, fun env handle scope member => ?_⟩
    · rcases List.mem_cons.mp member with rfl | outer
      · exact Nat.lt_succ_self _
      · exact Nat.lt_succ_of_lt (ih env handle scope outer)
    · exact Nat.lt_succ_of_lt (ih env handle scope member)
  | bind _ _ bound ih =>
    obtain ⟨-, -, rfl⟩ := bind_eq_ok bound
    rw [tables_define]
    exact ih

/-- Nothing is written in a scope before it is opened. -/
theorem written (made : scopes.Made handles ledger) :
    ∀ entry ∈ ledger, entry.1 < scopes.tables.size := by
  induction made with
  | start => exact List.forall_mem_nil _
  | @root handles ledger scopes table _ ih =>
    rw [tables_openRoot]
    refine List.forall_mem_append.mpr ⟨fun entry member => ?_, fun entry member => ?_⟩
    · obtain ⟨_, -, rfl⟩ := List.mem_map.mp member
      exact Nat.lt_succ_self _
    · exact Nat.lt_succ_of_lt (ih entry member)
  | child _ _ ih =>
    rw [tables_openChild]
    exact fun entry member => Nat.lt_succ_of_lt (ih entry member)
  | bind made handle bound ih =>
    obtain ⟨-, -, rfl⟩ := bind_eq_ok bound
    rw [tables_define]
    exact List.forall_mem_cons.mpr ⟨made.opened _ handle _ List.mem_cons_self, ih⟩

/-- A scope binds what the ledger has as its latest entries. -/
theorem local?_eq_latest? (made : scopes.Made handles ledger) (scope : ScopeId) :
    scopes.local? scope name = ledger.latest? name scope := by
  induction made with
  | start => exact local?_unopened (Nat.zero_le scope)
  | @root handles ledger scopes table before ih =>
    rw [Ledger.latest?_opened]
    by_cases fresh : scope = scopes.tables.size
    · subst fresh
      have unwritten : ledger.latest? name scopes.tables.size = none :=
        Ledger.latest?_none fun entry member => Nat.ne_of_lt (before.written entry member)
      rw [local?_openRoot_self, if_pos rfl, unwritten, Option.or_none]
    · rw [local?_openRoot_other fresh, if_neg fresh, Option.none_or, ih]
  | @child handles ledger scopes env _ _ ih =>
    by_cases fresh : scope = scopes.tables.size
    · rw [← ih, fresh, local?_openChild_self, local?_unopened (Nat.le_refl _)]
      exact Std.TreeMap.getElem?_emptyc
    · rw [local?_openChild_other fresh, ih]
  | bind before handle bound ih =>
    obtain ⟨-, -, rfl⟩ := bind_eq_ok bound
    have opened := before.opened _ handle _ List.mem_cons_self
    simp only [local?_define, Ledger.latest?, opened, and_true, ih]

/-- A look-up finds the latest value of the nearest scope that has one. -/
theorem get?_eq_some_iff (made : scopes.Made handles ledger) :
    scopes.get? env name = some v ↔
      ∃ scope, ledger.Shows env name scope ∧ ledger.latest? name scope = some v := by
  rw [get?, find?_eq_findSome?, List.findSome?_eq_some_iff]
  simp only [made.local?_eq_latest?]
  constructor
  · rintro ⟨inner, scope, outer, chain, latest, nearer⟩
    exact ⟨scope, ⟨inner, outer, chain, nearer⟩, latest⟩
  · rintro ⟨scope, ⟨inner, outer, chain, nearer⟩, latest⟩
    exact ⟨inner, scope, outer, chain, latest, nearer⟩

/-- Binding a name shows wherever the scope shows. -/
theorem get?_define_shown (made : scopes.Made handles ledger) (handle : env ∈ handles)
    (shows : ledger.Shows other name env.scope) :
    (scopes.define env.scope name v).get? other name = some v := by
  obtain ⟨inner, outer, chain, free⟩ := shows
  rw [get?, chain]
  refine find?_define_shown (made.opened env handle _ List.mem_cons_self) fun nearer member => ?_
  rw [made.local?_eq_latest?, free nearer member]

theorem get?_define_hidden (made : scopes.Made handles ledger)
    (hidden : sought = name → ¬ ledger.Shows other name env.scope) :
    (scopes.define env.scope name v).get? other sought = scopes.get? other sought := by
  refine find?_define_hidden fun same inner outer chain => ?_
  by_contra free
  refine hidden same ⟨inner, outer, chain, fun nearer member => ?_⟩
  rw [← made.local?_eq_latest?]
  by_contra bound
  exact free ⟨nearer, member, bound⟩

/-- In scopes that came about by opening and binding, each name has the latest value of the nearest
scope that binds it. A name is bound unless it is reserved or its scope is a root that binds it
already; a binding that is refused changes nothing, and one that is made is seen by the environments
whose look-up comes to its scope and changes nothing else. The listing of an environment is in the
order of the names, each of them once, and holds what looking up finds. -/
theorem nearest_latest_listed {w : World σ} (made : w.scopes.Made handles ledger)
    (handle : env ∈ handles) :
    (∀ name v, w.scopes.get? env name = some v ↔
      ∃ scope, ledger.Shows env name scope ∧ ledger.latest? name scope = some v) ∧
    (∀ name v, ((w.bind env name v).1 = .ok () ↔
        name ∉ [Symbol.nilName, Symbol.truthName, Symbol.restMarker] ∧
          (env.isRoot = true → ledger.latest? name env.scope = none)) ∧
      ((w.bind env name v).1 ≠ .ok () → (w.bind env name v).2 = w) ∧
      ((w.bind env name v).1 = .ok () → ∀ other ∈ handles,
        (ledger.Shows other name env.scope →
          (w.bind env name v).2.scopes.get? other name = some v) ∧
        ∀ sought, (sought = name → ¬ ledger.Shows other name env.scope) →
          (w.bind env name v).2.scopes.get? other sought = w.scopes.get? other sought)) ∧
    (w.scopes.bindings env).Pairwise (fun a b => a.1 < b.1) ∧
    ∀ name v, (name, v) ∈ w.scopes.bindings env ↔ w.scopes.get? env name = some v := by
  refine ⟨fun name v => made.get?_eq_some_iff, fun name v => ?_, bindings_sorted,
    fun name v => mem_bindings_iff⟩
  have allowed : (env.isRoot && w.scopes.binds env name) = false ↔
      (env.isRoot = true → ledger.latest? name env.scope = none) := by
    rw [binds_eq, made.local?_eq_latest?]
    cases env.isRoot <;> simp
  rw [← isReserved_eq_false_iff, ← allowed]
  rcases bind_or_refused w env name v with ⟨free, fresh, bound⟩ | ⟨refused, e, failed⟩
  · rw [bound]
    refine ⟨⟨fun _ => ⟨free, fresh⟩, fun _ => rfl⟩, fun wrong => absurd rfl wrong, ?_⟩
    intro _ other _
    exact ⟨made.get?_define_shown handle, fun sought hidden => made.get?_define_hidden hidden⟩
  · rw [failed]
    exact ⟨⟨nofun, fun both => absurd both refused⟩, fun _ => rfl, nofun⟩

/-- A child binds the name that its root binds, and the root does not get it once more. -/
theorem nearest_latest_listed_shadowing :
    let root := Scopes.openRoot {} (Table.ofEntries [("x", .nil)])
    let child := root.2.openChild root.1 ∅
    let scopes := child.2.define child.1.scope "x" .truth
    let w : World Unit := { scopes, host := () }
    let ledger : Ledger := [(1, "x", .truth), (0, "x", .nil)]
    w.scopes.Made [child.1, root.1] ledger ∧ root.1 ∈ [child.1, root.1] ∧
      ledger.latest? "x" root.1.scope = some .nil ∧
      (w.bind root.1 "x" .truth).1 ≠ .ok () ∧ (w.bind root.1 "x" .truth).2 = w ∧
      w.scopes.get? child.1 "x" = some .truth ∧ w.scopes.bindings child.1 = [("x", .truth)] := by
  intro root child scopes w ledger
  have made : w.scopes.Made [child.1, root.1] ledger :=
    .bind (.child (.root _ .start) List.mem_cons_self) List.mem_cons_self rfl
  have atRoot : root.1 ∈ [child.1, root.1] := List.mem_cons_of_mem _ List.mem_cons_self
  have taken : ledger.latest? "x" root.1.scope = some .nil := rfl
  obtain ⟨-, binds, -⟩ := made.nearest_latest_listed (w := w) atRoot
  obtain ⟨allowed, refused, -⟩ := binds "x" .truth
  have fails : (w.bind root.1 "x" .truth).1 ≠ .ok () := by
    intro bound
    cases taken.symm.trans ((allowed.mp bound).2 rfl)
  refine ⟨made, atRoot, taken, fails, refused fails, ?_, ?_⟩
  · exact ((made.nearest_latest_listed (w := w) List.mem_cons_self).1 "x" .truth).mpr
      ⟨1, ⟨[], [0], rfl, List.forall_mem_nil _⟩, rfl⟩
  · rfl

end Scopes.Made

end CooperativeLisp

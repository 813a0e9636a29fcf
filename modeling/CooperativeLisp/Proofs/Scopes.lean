import CooperativeLisp.World

/-!
What opening a scope and binding a name do to what the scopes bind. Main statements: a new scope
binds its entries and hides nothing but their names, every other scope is left alone, and a name
that is bound has its value in its own scope and in no other.
-/

namespace CooperativeLisp

namespace Table

variable {name : String} {v : Value}

/-- Entries that are added hide what their names had before; the last one of a name counts. -/
theorem foldl_insert_get (entries : List (String × Value)) (table : Table) (name : String) :
    (entries.foldl (fun t entry => t.insert entry.1 entry.2) table)[name]? =
      (entries.reverse.lookup name).or table[name]? := by
  induction entries generalizing table with
  | nil => simp
  | cons entry entries ih =>
    obtain ⟨key, v⟩ := entry
    rw [List.foldl_cons, ih, List.reverse_cons, List.lookup_append, Std.TreeMap.getElem?_insert,
      Option.or_assoc]
    congr 1
    by_cases same : key = name
    · subst same
      simp
    · have other : (name == key) = false := beq_eq_false_iff_ne.mpr (Ne.symm same)
      simp [List.lookup_cons, other, same]

/-- The last entry of a name is the one that counts. -/
theorem ofEntries_get (entries : List (String × Value)) (name : String) :
    (ofEntries entries)[name]? = entries.reverse.lookup name := by
  rw [ofEntries, foldl_insert_get]
  simp

theorem mem_of_lookup {entries : List (String × Value)} (found : entries.lookup name = some v) :
    (name, v) ∈ entries := by
  obtain ⟨before, after, split, -⟩ := List.lookup_eq_some_iff.mp found
  exact split ▸ List.mem_append_right _ List.mem_cons_self

theorem mem_of_ofEntries_get {entries : List (String × Value)}
    (found : (ofEntries entries)[name]? = some v) : (name, v) ∈ entries :=
  List.mem_reverse.mp (mem_of_lookup (ofEntries_get entries name ▸ found))

/-- A list that has exactly the entries of a table is looked up as the table is. -/
theorem lookup_of_entries {entries : List (String × Value)} {table : Table}
    (entry : ∀ v, (name, v) ∈ entries ↔ table[name]? = some v) :
    entries.lookup name = table[name]? := by
  cases found : entries.lookup name with
  | none =>
    refine (Option.eq_none_iff_forall_not_mem.mpr fun v bound => ?_).symm
    have other := List.lookup_eq_none_iff.mp found _ ((entry v).mpr bound)
    exact absurd rfl (bne_iff_ne.mp other)
  | some v => exact ((entry v).mp (mem_of_lookup found)).symm

/-- What lies on top hides what is below. -/
theorem overlay_get (table top : Table) (name : String) :
    (table.overlay top)[name]? = top[name]?.or table[name]? := by
  have entry : ∀ v, (name, v) ∈ top.toList.reverse ↔ top[name]? = some v := fun v =>
    List.mem_reverse.trans Std.TreeMap.mem_toList_iff_getElem?_eq_some
  rw [overlay, Std.TreeMap.foldl_eq_foldl_toList, foldl_insert_get, lookup_of_entries entry]

end Table

namespace Scopes

variable {scopes : Scopes} {env : Environment} {table : Table} {scope : ScopeId} {name : String}
variable {v : Value}

theorem local?_openChild_self :
    (scopes.openChild env table).2.local? scopes.tables.size name = table[name]? := by
  simp [openChild, local?, Scopes.table]

theorem local?_openChild_other (other : scope ≠ scopes.tables.size) :
    (scopes.openChild env table).2.local? scope name = scopes.local? scope name := by
  simp [openChild, local?, Scopes.table, Array.getElem?_push, other]

theorem local?_openRoot_self :
    (scopes.openRoot table).2.local? scopes.tables.size name = table[name]? := by
  simp [openRoot, local?, Scopes.table]

theorem local?_openRoot_other (other : scope ≠ scopes.tables.size) :
    (scopes.openRoot table).2.local? scope name = scopes.local? scope name := by
  simp [openRoot, local?, Scopes.table, Array.getElem?_push, other]

/-- A scope that was never opened binds nothing. -/
theorem local?_unopened (unopened : scopes.tables.size ≤ scope) : scopes.local? scope name = none := by
  simp [local?, Scopes.table, unopened]

/-- Binding a name changes the value of that name in that scope and nothing else. -/
theorem local?_define {target : ScopeId} {bound : String} :
    (scopes.define target bound v).local? scope name =
      if scope = target ∧ name = bound ∧ target < scopes.tables.size then some v
      else scopes.local? scope name := by
  simp only [local?, Scopes.table, define, Array.getD_eq_getD_getElem?, Array.getElem?_modify]
  by_cases here : target = scope
  · subst here
    by_cases opened : target < scopes.tables.size
    · by_cases same : name = bound
      · subst same
        simp [opened]
      · simp [opened, same, Std.TreeMap.getElem?_insert, Ne.symm same]
    · simp [opened]
  · simp [here, Ne.symm here]

/-- What binding a name in a scope has to do with, if it succeeds. -/
theorem bind_eq_ok {env : Environment} {scopes' : Scopes}
    (bound : scopes.bind env name v = .ok scopes') :
    Symbol.isReserved name = false ∧ (env.isRoot && scopes.binds env name) = false ∧
      scopes' = scopes.define env.scope name v := by
  unfold bind at bound
  split at bound
  · cases bound
  · rename_i free
    split at bound
    · cases bound
    · rename_i fresh
      cases bound
      exact ⟨Bool.eq_false_iff.mpr free, Bool.eq_false_iff.mpr fresh, rfl⟩

theorem binds_eq {env : Environment} :
    scopes.binds env name = (scopes.local? env.scope name).isSome := by
  rw [binds, local?, Std.TreeMap.contains_eq_isSome_getElem?]

theorem tables_define {target : ScopeId} {bound : String} :
    (scopes.define target bound v).tables.size = scopes.tables.size := by
  simp [define]

theorem tables_openChild : (scopes.openChild env table).2.tables.size = scopes.tables.size + 1 := by
  simp [openChild]

theorem tables_openRoot : (scopes.openRoot table).2.tables.size = scopes.tables.size + 1 := by
  simp [openRoot]

/-- A new scope is the first that a look-up from it visits. -/
theorem get?_openChild {child : Environment} {scopes' : Scopes}
    (opened : scopes.openChild env table = (child, scopes')) (bound : table[name]? = some v) :
    scopes'.get? child name = some v := by
  have inScope : (scopes.openChild env table).2.local? scopes.tables.size name = table[name]? :=
    local?_openChild_self
  rw [opened] at inScope
  obtain ⟨rfl, -⟩ := Prod.mk.inj opened
  simp only [get?, Environment.chain, find?]
  rw [inScope.trans bound]

end Scopes

/-- The scope that an invocation of a closure opens for its arguments. -/
def World.enter (w : World σ) (c : Closure) (args : List Value) : Environment × World σ :=
  (⟨w.scopes.tables.size, c.env.chain⟩,
    { w with scopes := (w.scopes.openChild c.env (Table.ofEntries (c.arguments args))).2 })

namespace World

variable {σ : Type} (w : World σ) (c : Closure) (args : List Value)

theorem enter_size : (w.enter c args).2.scopes.tables.size = w.scopes.tables.size + 1 :=
  @Scopes.tables_openChild w.scopes c.env _

/-- The new scope binds the arguments of the invocation. -/
theorem enter_new (name : String) :
    (w.enter c args).2.scopes.local? w.scopes.tables.size name =
      (Table.ofEntries (c.arguments args))[name]? :=
  @Scopes.local?_openChild_self w.scopes c.env _ _

theorem enter_other {x : ScopeId} (other : x ≠ w.scopes.tables.size) (name : String) :
    (w.enter c args).2.scopes.local? x name = w.scopes.local? x name :=
  @Scopes.local?_openChild_other w.scopes c.env _ _ _ other

theorem enter_old {x : ScopeId} (opened : x < w.scopes.tables.size) (name : String) :
    (w.enter c args).2.scopes.local? x name = w.scopes.local? x name :=
  w.enter_other c args (Nat.ne_of_lt opened) name

end World

end CooperativeLisp

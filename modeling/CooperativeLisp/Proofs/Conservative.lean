import CooperativeLisp.Proofs.Backtraces

/-!
Extensions that no program uses. Whatever a host adds under names of its own, expressions that do not
mention these names evaluate as they do without it: to the same values or the same failures, with the
same scopes and closures made on the way. That holds although the expansions of the library bring in
names that the program never wrote, and although declarations look at the root.
-/

namespace CooperativeLisp

open List (Forall₂)

variable {σ : Type}

/-- The second world is the first with the entries of a table added to one scope, where none of their
names was bound. Scopes that were opened after that one are the same. -/
structure World.WithEntries (root : ScopeId) (entries : Table) (w w' : World σ) : Prop where
  fresh : ∀ name ∈ entries, w.scopes.local? root name = none
  added : ∀ name : String,
    w'.scopes.local? root name = entries[name]?.or (w.scopes.local? root name)
  behind : ∀ x, root < x → ∀ name, w'.scopes.local? x name = w.scopes.local? x name

/-- The name of the running closure is bound in the library. -/
theorem Library.self_mem : Symbol.selfName ∈ Library.table := by
  have bound : Library.table[Symbol.selfName]? = some .nil := by
    rw [Library.table, Table.ofEntries_get, List.reverse_append]
    rfl
  exact Std.TreeMap.mem_iff_isSome_getElem?.mpr (bound ▸ rfl)

namespace Twinning

/-- Two interpreters of the standard library in one world, the second with extensions. Their bounds on
backtraces are the same, so that all entries are compared. -/
def extended (root : ScopeId) (extensions : Table) (entries : Nat)
    (free : Symbol.selfName ∉ extensions) : Twinning where
  root := root
  extras := extensions
  caps := Eq
  entries := entries
  caps_refl _ := rfl
  caps_agree same := same ▸ rfl
  self_free := free

variable {root : ScopeId} {extensions : Table} {entries : Nat} {free : Symbol.selfName ∉ extensions}
variable {w w' : World σ}

theorem Worlds.withEntries (worlds : (extended root extensions entries free).Worlds w w') :
    World.WithEntries root extensions w w' := by
  have same : ∀ {x y : Option Value},
      Option.Rel (Value.Twin (extended root extensions entries free)) x y → y = x := by
    intro x y related
    cases related with
    | none => rfl
    | some twin => rw [twin.eq id]
  refine ⟨fun name hidden => (worlds.extra hidden).1, fun name => ?_, fun x behind name => ?_⟩
  · by_cases hidden : name ∈ extensions
    · obtain ⟨unbound, bound⟩ := worlds.extra hidden
      have here : w'.scopes.local? root name = extensions[name]? := bound
      have none : w.scopes.local? root name = none := unbound
      rw [here, none, Option.or_none]
    · rw [Std.TreeMap.getElem?_eq_none hidden, Option.none_or]
      exact same (worlds.bound (Nat.le_refl root) (Or.inr hidden))
  · exact same (worlds.bound (Nat.le_of_lt behind) (Or.inl (Nat.ne_of_gt behind)))

/-- Results that are twins are equal if no backtrace is longer than what is compared. -/
theorem eq_of_twins {rs rs' : List (Except Error Value)}
    (twins : Forall₂ ((extended root extensions entries free).Ends
      (Value.Twin (extended root extensions entries free))) rs rs')
    (bounded : ∀ e, .error e ∈ rs → e.backtrace.length ≤ entries)
    (bounded' : ∀ e, .error e ∈ rs' → e.backtrace.length ≤ entries) : rs = rs' := by
  induction twins with
  | nil => rfl
  | @cons r r' rs rs' first _ ih =>
    have rest := ih (fun e member => bounded e (.tail _ member))
      fun e member => bounded' e (.tail _ member)
    rw [rest]
    cases first with
    | ok twin => rw [twin.eq id]
    | @error e e' twin =>
      have left := List.take_of_length_le (bounded e List.mem_cons_self)
      have right := List.take_of_length_le (bounded' e' List.mem_cons_self)
      have backtrace : e.backtrace = e'.backtrace := left.symm.trans (twin.backtrace.trans right)
      obtain ⟨fault, trace⟩ := e
      obtain ⟨fault', trace'⟩ := e'
      obtain rfl : fault = fault' := twin.fault.same id
      obtain rfl : trace = trace' := backtrace
      rfl

end Twinning

/-- Unused extensions are conservative. If none of their names is a name of the standard library or
occurs in the expressions, then evaluating the expressions comes to an end with them if it does without
them, with the same results, and the root binds the extensions and nothing else besides. -/
theorem Interpreter.unused_extensions_conservative (host : Host σ) (w : World σ) (config : Config)
    (extensions : Table) (es : List Value)
    (unused : ∀ name ∈ extensions, name ∉ Library.table ∧ name ≠ "export" ∧
      ∀ e ∈ es, ¬ (Value.symbol name).OccursIn e)
    (standard : ∀ e ∈ es, e.Standard) :
    let plain := build w Library.table ∅ config
    let extended := build w Library.table extensions config
    (∀ {rs W}, host.Answers (fun g => es.mapM (plain.1.evaluate g)) plain.2 rs W →
      ∃ W', host.Answers (fun g => es.mapM (extended.1.evaluate g)) extended.2 rs W' ∧
        W.WithEntries plain.1.root.scope extensions W') ∧
    ∀ {rs W'}, host.Answers (fun g => es.mapM (extended.1.evaluate g)) extended.2 rs W' →
      ∃ W, host.Answers (fun g => es.mapM (plain.1.evaluate g)) plain.2 rs W ∧
        W.WithEntries plain.1.root.scope extensions W' := by
  have free : Symbol.selfName ∉ extensions := fun hidden => (unused _ hidden).1 Library.self_mem
  let τ := Twinning.extended w.scopes.tables.size extensions (max config.maxBacktrace 1) free
  have plain : ∀ e ∈ es, τ.Plain e := fun e member =>
    .of_standard (standard e member) fun name hidden => (unused name hidden).2.2 e member
  have worlds : τ.Worlds (build w Library.table ∅ config).2
      (build w Library.table extensions config).2 :=
    .build w rfl rfl fun name hidden => ⟨(unused name hidden).1, (unused name hidden).2.1⟩
  have caps : τ.caps config.maxBacktrace config.maxBacktrace := rfl
  obtain ⟨forth, back⟩ := Twinning.evaluateAll_iff host worlds caps plain
  constructor
  · intro rs W answers
    obtain ⟨rs', W', answers', worlds, twins⟩ := forth answers
    obtain rfl := Twinning.eq_of_twins twins (Host.evaluateAll_bounded answers)
      (Host.evaluateAll_bounded answers')
    exact ⟨W', answers', worlds.withEntries⟩
  · intro rs' W' answers
    obtain ⟨rs, W, answers', worlds, twins⟩ := back answers
    obtain rfl := Twinning.eq_of_twins twins (Host.evaluateAll_bounded answers')
      (Host.evaluateAll_bounded answers)
    exact ⟨W, answers', worlds.withEntries⟩

/-! ### Extensions under the names of an expansion -/

namespace Extension

/-- Extensions under the names that the expansion of `or` uses for itself. -/
def shadows : Table :=
  Table.ofEntries [("v", .truth), ("k", .symbol "k")]

/-- The first operand that is true, of which the first is not. -/
def chosen : Value :=
  .list [.symbol "or", .nil, .truth]

/-- An interpreter of the standard library, and one with the extensions besides. -/
def unextended : Interpreter × World Log :=
  Interpreter.build bare Library.table ∅ { maxBacktrace := 1 }

def shadowed : Interpreter × World Log :=
  Interpreter.build bare Library.table shadows { maxBacktrace := 1 }

theorem chosen_standard : chosen.Standard :=
  .list (.cons (.symbol _) (.cons .nil (.cons .truth .nil)))

theorem shadows_unused : ∀ name ∈ shadows, name ∉ Library.table ∧ name ≠ "export" ∧
    ∀ e ∈ [chosen], ¬ (Value.symbol name).OccursIn e := by
  intro name hidden
  obtain ⟨v, bound⟩ := Option.isSome_iff_exists.mp
    (Std.TreeMap.mem_iff_isSome_getElem?.mp hidden)
  have names : name = "v" ∨ name = "k" := by
    rcases List.mem_cons.mp (Table.mem_of_ofEntries_get bound) with first | second
    · exact Or.inl (congrArg Prod.fst first)
    · exact Or.inr (congrArg Prod.fst (List.mem_singleton.mp second))
  have unlisted : Library.table[name]? = none := by
    rw [Library.table, Table.ofEntries_get]
    rcases names with rfl | rfl <;> rfl
  refine ⟨?_, ?_, ?_⟩
  · rw [Std.TreeMap.mem_iff_isSome_getElem?, unlisted]
    exact Bool.false_ne_true
  · rcases names with rfl | rfl <;> decide
  · intro e member occurs
    obtain rfl := List.mem_singleton.mp member
    obtain _ | ⟨among, inside⟩ := occurs
    have leaf : name = "or" := by
      rcases List.mem_cons.mp among with rfl | operand
      · cases inside
        rfl
      · rcases List.mem_cons.mp operand with rfl | last
        · cases inside
        · obtain rfl := List.mem_singleton.mp last
          cases inside
    rcases names with rfl | rfl <;> exact absurd leaf (by decide)

end Extension

open Extension in
/-- A connective means what it does when the names that its expansion uses are bound at the root. -/
theorem Interpreter.unused_extensions_conservative_shadowed :
    (∀ name ∈ shadows, name ∉ Library.table ∧ name ≠ "export" ∧
      ∀ e ∈ [chosen], ¬ (Value.symbol name).OccursIn e) ∧
    (∀ e ∈ [chosen], e.Standard) ∧ ∃ W W',
      Extension.host.Answers (fun g => [chosen].mapM (unextended.1.evaluate g)) unextended.2
        [.ok .truth] W ∧
      Extension.host.Answers (fun g => [chosen].mapM (shadowed.1.evaluate g)) shadowed.2
        [.ok .truth] W' ∧ W.WithEntries unextended.1.root.scope shadows W' := by
  have evaluated : Extension.host.Answers (fun g => unextended.1.evaluate g chosen) unextended.2
      (.ok .truth) _ := ⟨40, rfl⟩
  have standard : ∀ e ∈ [chosen], e.Standard := List.forall_mem_singleton.mpr chosen_standard
  obtain ⟨W', answers, differ⟩ := (Interpreter.unused_extensions_conservative Extension.host bare
    { maxBacktrace := 1 } shadows [chosen] shadows_unused standard).1 evaluated.alone
  exact ⟨shadows_unused, standard, _, W', evaluated.alone, answers, differ⟩

end CooperativeLisp

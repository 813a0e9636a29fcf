import CooperativeLisp.Proofs.Correspondence

/-!
Two worlds in which nothing is ever bound: scopes and closures are only added. A pairing says which
of them stand for each other; an interpreter without declarations, whose host functions depend on
their arguments alone, cannot tell the paired worlds apart.
-/

namespace CooperativeLisp

open List (Forall₂)
open Relator (BiUnique)

variable {σ : Type} {extras : Callable → Prop}

/-- The likeness in which two relations say what stands for what: the scopes of a chain one by one,
and closures. -/
def Likeness.renaming (extras : Callable → Prop) (scopes : ScopeId → ScopeId → Prop)
    (closures : Nat → Nat → Prop) : Likeness where
  environment env env' := Forall₂ scopes env.chain env'.chain
  identity := closures
  admits := extras

theorem Likeness.renaming_le {scopes scopes' : ScopeId → ScopeId → Prop}
    {closures closures' : Nat → Nat → Prop} (moreScopes : ∀ {x y}, scopes x y → scopes' x y)
    (moreClosures : ∀ {i j}, closures i j → closures' i j) :
    (Likeness.renaming extras scopes closures).Le (.renaming extras scopes' closures') :=
  ⟨fun same => same.imp fun _ _ => moreScopes, moreClosures, id⟩

/-- Two functions of a host that leave the scopes and the supply of identities alone and whose
results are related, whatever the worlds are. -/
structure HostAction.Agrees {α : Type} (ρ : Likeness) (R : α → α → Prop) (x y : HostAction σ α) :
    Prop where
  results : ∀ w w', Matched ρ R (x.run.run w).1 (y.run.run w').1
  quiet : ∀ w, (x.run.run w).2.scopes = w.scopes ∧ (x.run.run w).2.closures = w.closures
  quiet' : ∀ w, (y.run.run w).2.scopes = w.scopes ∧ (y.run.run w).2.closures = w.closures

/-- What these callables of a host do depends on their arguments alone: renamed arguments have
renamed results, and no world is changed or looked at. Declarations are not among them. -/
structure Host.Pure (host : Host σ) (extras : Callable → Prop) : Prop where
  native : ∀ {name scopes closures args args'}, extras (.native (.host name)) →
    BiUnique scopes → BiUnique closures →
    Forall₂ (Value.Alike (.renaming extras scopes closures)) args args' →
    HostAction.Agrees (.renaming extras scopes closures)
      (Reply.Alike (.renaming extras scopes closures)) (host.native name args)
      (host.native name args')
  form : ∀ {name scopes closures operands operands' env env'}, extras (.form (.host name)) →
    BiUnique scopes → BiUnique closures →
    Forall₂ (Value.Alike (.renaming extras scopes closures)) operands operands' →
    Forall₂ scopes env.chain env'.chain →
    HostAction.Agrees (.renaming extras scopes closures)
      (Answer.Alike (.renaming extras scopes closures)) (host.form name operands env)
      (host.form name operands' env')
  expander : ∀ {name scopes closures operands operands' env env'},
    extras (.expander (.host name)) → BiUnique scopes → BiUnique closures →
    Forall₂ (Value.Alike (.renaming extras scopes closures)) operands operands' →
    Forall₂ scopes env.chain env'.chain →
    HostAction.Agrees (.renaming extras scopes closures)
      (Value.Alike (.renaming extras scopes closures)) (host.expander name operands env)
      (host.expander name operands' env')
  exports : ∀ cap, ¬ extras (.form (.exports cap))

/-- The second world has all that the first has, unchanged, and perhaps more. -/
structure World.Grows (w w' : World σ) : Prop where
  opened : w.scopes.tables.size ≤ w'.scopes.tables.size
  kept : ∀ x < w.scopes.tables.size, ∀ name, w'.scopes.local? x name = w.scopes.local? x name
  made : w.closures ≤ w'.closures

namespace World.Grows

variable {w w' w'' : World σ}

theorem refl (w : World σ) : w.Grows w := ⟨Nat.le_refl _, fun _ _ _ => rfl, Nat.le_refl _⟩

theorem trans (first : w.Grows w') (second : w'.Grows w'') : w.Grows w'' where
  opened := Nat.le_trans first.opened second.opened
  kept x opened name := by
    rw [second.kept x (Nat.lt_of_lt_of_le opened first.opened), first.kept x opened]
  made := Nat.le_trans first.made second.made

theorem of_eq (scopes : w'.scopes = w.scopes) (closures : w'.closures = w.closures) :
    w.Grows w' :=
  ⟨Nat.le_of_eq (by rw [scopes]), fun _ _ _ => by rw [scopes], Nat.le_of_eq closures.symm⟩

theorem enter (w : World σ) (c : Closure) (args : List Value) : w.Grows (w.enter c args).2 where
  opened := by
    rw [w.enter_size]
    exact Nat.le_succ _
  kept _ opened := w.enter_old c args opened
  made := Nat.le_refl _

theorem makeClosure (w : World σ) : w.Grows { w with closures := w.closures + 1 } :=
  ⟨Nat.le_refl _, fun _ _ _ => rfl, Nat.le_succ _⟩

end World.Grows

/-- Two worlds with the scopes and closures of the one that stand for scopes and closures of the
other. Scopes stand for each other only if they bind the same names to values that are alike. -/
structure Pairing (σ : Type) (extras : Callable → Prop) where
  left : World σ
  right : World σ
  scopes : ScopeId → ScopeId → Prop
  closures : Nat → Nat → Prop
  scopes_unique : BiUnique scopes
  closures_unique : BiUnique closures
  opened : ∀ {x y}, scopes x y → x < left.scopes.tables.size ∧ y < right.scopes.tables.size
  made : ∀ {i j}, closures i j → i < left.closures ∧ j < right.closures
  bound : ∀ {x y}, scopes x y → ∀ name, Option.Rel
    (Value.Alike (.renaming extras scopes closures)) (left.scopes.local? x name)
    (right.scopes.local? y name)

namespace Pairing

/-- A relation with one more pair is one-to-one, if both sides of the pair are new to it. -/
theorem biUnique_or {R : Nat → Nat → Prop} {a b : Nat} (unique : BiUnique R)
    (old : ∀ {x y}, R x y → x < a ∧ y < b) : BiUnique fun x y => R x y ∨ x = a ∧ y = b := by
  constructor
  · rintro x y z (first | ⟨rfl, rfl⟩) (second | ⟨rfl, same⟩)
    · exact unique.1 first second
    · exact absurd (old first).2 (by omega)
    · exact absurd (old second).2 (by omega)
    · rfl
  · rintro x y z (first | ⟨rfl, rfl⟩) (second | ⟨same, rfl⟩)
    · exact unique.2 first second
    · exact absurd (old first).1 (by omega)
    · exact absurd (old second).1 (by omega)
    · rfl

/-- The likeness of what the two worlds hold. -/
def likeness (k : Pairing σ extras) : Likeness :=
  .renaming extras k.scopes k.closures

/-- The one moment follows on the other: the worlds have grown, and pairs have been added. -/
structure Later (k k' : Pairing σ extras) : Prop where
  left : k.left.Grows k'.left
  scopes : ∀ {x y}, k.scopes x y → k'.scopes x y
  closures : ∀ {i j}, k.closures i j → k'.closures i j

theorem Later.grows {k k' : Pairing σ extras} (later : k.Later k') :
    k.likeness.Le k'.likeness :=
  Likeness.renaming_le later.scopes later.closures

theorem Later.refl (k : Pairing σ extras) : k.Later k := ⟨.refl _, id, id⟩

theorem Later.trans {k k₁ k₂ : Pairing σ extras} (first : k.Later k₁) (second : k₁.Later k₂) :
    k.Later k₂ :=
  ⟨first.left.trans second.left, fun same => second.scopes (first.scopes same),
    fun same => second.closures (first.closures same)⟩

/-- The pairing goes on to hold while both worlds grow. -/
def move (k : Pairing σ extras) {W w : World σ} (onLeft : k.left.Grows W)
    (onRight : k.right.Grows w) : Pairing σ extras :=
  { k with
    left := W
    right := w
    opened := fun same => ⟨Nat.lt_of_lt_of_le (k.opened same).1 onLeft.opened,
      Nat.lt_of_lt_of_le (k.opened same).2 onRight.opened⟩
    made := fun same => ⟨Nat.lt_of_lt_of_le (k.made same).1 onLeft.made,
      Nat.lt_of_lt_of_le (k.made same).2 onRight.made⟩
    bound := fun same name => by
      rw [onLeft.kept _ (k.opened same).1, onRight.kept _ (k.opened same).2]
      exact k.bound same name }

theorem move_later (k : Pairing σ extras) {W w : World σ} (onLeft : k.left.Grows W)
    (onRight : k.right.Grows w) : k.Later (k.move onLeft onRight) :=
  ⟨onLeft, id, id⟩

/-- Look-ups along chains that stand for each other find values that are alike. -/
theorem find? (k : Pairing σ extras) (name : String) {chain chain' : List ScopeId}
    (same : Forall₂ k.scopes chain chain') : Option.Rel (Value.Alike k.likeness)
      (k.left.scopes.find? name chain) (k.right.scopes.find? name chain') := by
  induction same with
  | nil => exact .none
  | cons first _ ih =>
    have here := k.bound first name
    unfold Scopes.find?
    revert here
    generalize k.left.scopes.local? _ name = x
    generalize k.right.scopes.local? _ name = y
    intro here
    cases here with
    | none => exact ih
    | some alike => exact .some alike

/-- Invocations of closures that are alike open scopes that stand for each other. -/
def enter (k : Pairing σ extras) {c d : Closure} {args args' : List Value}
    (same : Callable.Alike k.likeness (.closure c) (.closure d))
    (all : Forall₂ (Value.Alike k.likeness) args args') : Pairing σ extras where
  left := (k.left.enter c args).2
  right := (k.right.enter d args').2
  scopes x y := k.scopes x y ∨ x = k.left.scopes.tables.size ∧ y = k.right.scopes.tables.size
  closures := k.closures
  scopes_unique := biUnique_or k.scopes_unique k.opened
  closures_unique := k.closures_unique
  opened := by
    intro x y paired
    rw [k.left.enter_size, k.right.enter_size]
    rcases paired with old | ⟨rfl, rfl⟩
    · exact ⟨Nat.lt_succ_of_lt (k.opened old).1, Nat.lt_succ_of_lt (k.opened old).2⟩
    · exact ⟨Nat.lt_succ_self _, Nat.lt_succ_self _⟩
  made := k.made
  bound := by
    intro x y paired name
    refine Value.Alike.monoOption (Likeness.renaming_le Or.inl id) ?_
    rcases paired with old | ⟨rfl, rfl⟩
    · rw [k.left.enter_old c args (k.opened old).1, k.right.enter_old d args' (k.opened old).2]
      exact k.bound old name
    · rw [k.left.enter_new, k.right.enter_new]
      exact Table.ofEntries_alike (Closure.arguments_alike same all) name

/-- The next closures that are made stand for each other. -/
def makeClosure (k : Pairing σ extras) : Pairing σ extras where
  left := { k.left with closures := k.left.closures + 1 }
  right := { k.right with closures := k.right.closures + 1 }
  scopes := k.scopes
  closures i j := k.closures i j ∨ i = k.left.closures ∧ j = k.right.closures
  scopes_unique := k.scopes_unique
  closures_unique := biUnique_or k.closures_unique k.made
  opened := k.opened
  made := by
    rintro i j (old | ⟨rfl, rfl⟩)
    · exact ⟨Nat.lt_succ_of_lt (k.made old).1, Nat.lt_succ_of_lt (k.made old).2⟩
    · exact ⟨Nat.lt_succ_self _, Nat.lt_succ_self _⟩
  bound paired name :=
    Value.Alike.monoOption (Likeness.renaming_le id Or.inl) (k.bound paired name)

/-- Worlds in which nothing is bound, and what stands for what in them. -/
@[reducible]
def correspondence (σ : Type) (extras : Callable → Prop) : Correspondence σ where
  Moment := Pairing σ extras
  left := left
  right := right
  likeness := likeness
  Later := Later
  refl := .refl
  trans := .trans
  grows := Later.grows

theorem leads (k : Pairing σ extras) {α : Type} {R : (ρ : Likeness) → α → α → Prop}
    {x y : HostAction σ α} (agrees : HostAction.Agrees k.likeness (R k.likeness) x y) :
    (correspondence σ extras).Leads k
      ((correspondence σ extras).Both fun k => R ((correspondence σ extras).likeness k))
      (x.run.run k.left) (y.run.run k.right) :=
  ⟨k.move (.of_eq (agrees.quiet k.left).1 (agrees.quiet k.left).2)
      (.of_eq (agrees.quiet' k.right).1 (agrees.quiet' k.right).2),
    k.move_later _ _, rfl, rfl, agrees.results k.left k.right⟩

theorem respected {host : Host σ} (pure : host.Pure extras) :
    (correspondence σ extras).Respected host where
  lookup around := Pairing.find? _ _ around
  opens := by
    intro k c d args args' same all
    refine ⟨k.enter same all, ⟨.enter .., Or.inl, id⟩, rfl, rfl, ?_⟩
    cases same with
    | closure _ _ around => exact .cons (Or.inr ⟨rfl, rfl⟩) (around.imp fun _ _ => Or.inl)
  makes k := ⟨k.makeClosure, ⟨.makeClosure _, id, Or.inl⟩, rfl, rfl, Or.inr ⟨rfl, rfl⟩⟩
  root admitted := absurd admitted (pure.exports _)
  binds admitted := absurd admitted (pure.exports _)
  bind admitted := absurd admitted (pure.exports _)
  native {k} _ _ _ admitted all :=
    k.leads (pure.native admitted k.scopes_unique k.closures_unique all)
  form {k} _ _ _ _ _ admitted all around :=
    k.leads (pure.form admitted k.scopes_unique k.closures_unique all around)
  expander {k} _ _ _ _ _ admitted all around :=
    k.leads (pure.expander admitted k.scopes_unique k.closures_unique all around)

end Pairing

end CooperativeLisp

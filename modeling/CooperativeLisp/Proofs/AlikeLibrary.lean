import CooperativeLisp.Proofs.Alike
import CooperativeLisp.Proofs.Kinship

/-!
The library cannot tell alike values apart. Main statements: expansions of alike operands, replies
of a native to alike arguments, closures made of alike parameters and bodies, and the scopes that
their invocations open are alike again, and where one fails so does the other.
-/

namespace CooperativeLisp

open List (Forall₂)

variable {ρ : Likeness} {v w : Value} {vs ws : List Value}

theorem Matched.mapM {α β α' β' : Type} {R : α → β → Prop} {S : α' → β' → Prop}
    {f : α → Except Error α'} {g : β → Except Error β'} {as : List α} {bs : List β}
    (each : ∀ {a b}, R a b → Matched ρ S (f a) (g b)) (all : Forall₂ R as bs) :
    Matched ρ (Forall₂ S) (as.mapM f) (bs.mapM g) := by
  induction all with
  | nil => exact .ok .nil
  | cons first _ ih =>
    rw [List.mapM_cons, List.mapM_cons]
    exact (each first).bind fun related => ih.bind fun more => .ok (.cons related more)

/-! ### Parameter lists -/

namespace LambdaList

theorem nameOf_alike {otherwise : Value → TypeFault}
    (shown : (otherwise v).message = (otherwise w).message) (alike : v.Alike ρ w) :
    Matched ρ Eq (nameOf otherwise v) (nameOf otherwise w) := by
  have wrong : (Fault.type (otherwise v)).Alike (.type (otherwise w)) :=
    ⟨rfl, congrArg ("Type error: " ++ ·) shown⟩
  cases alike with
  | symbol name => exact .ok rfl
  | nil => exact .same _
  | truth => exact .same _
  | _ => exact .fault wrong

theorem readRest_alike (seen : List String) (all : Forall₂ (Value.Alike ρ) vs ws) :
    Matched ρ Eq (readRest seen vs) (readRest seen ws) := by
  cases all with
  | nil => exact .ok rfl
  | @cons v w more more' first rest =>
    have shown : (TypeFault.restName v).message = (TypeFault.restName w).message := by
      dsimp only [TypeFault.message]
      rw [first.display]
    unfold readRest
    refine (nameOf_alike shown first).bind fun {name _} same => ?_
    subst same
    by_cases reserved : Symbol.isReserved name = true
    · simp only [reserved, if_true]
      exact .same _
    simp only [reserved]
    cases rest with
    | nil =>
      by_cases twice : seen.contains name = true
      · simp only [twice, if_true]
        exact .same _
      · simp only [twice]
        exact .ok rfl
    | cons extra _ =>
      refine .fault ⟨rfl, ?_⟩
      dsimp only [Fault.message, EvaluationFault.message]
      rw [extra.display]

theorem readAfter_alike (seen : List String) (all : Forall₂ (Value.Alike ρ) vs ws) :
    Matched ρ Eq (readAfter seen vs) (readAfter seen ws) := by
  induction all generalizing seen with
  | nil => exact .ok rfl
  | @cons v w more more' first rest ih =>
    have shown : (TypeFault.parameter v).message = (TypeFault.parameter w).message := by
      dsimp only [TypeFault.message]
      rw [first.display]
    unfold readAfter
    refine (nameOf_alike shown first).bind fun {name _} same => ?_
    subst same
    by_cases marker : (name == Symbol.restMarker) = true
    · simp only [marker, if_true]
      exact (readRest_alike seen rest).bind fun same => .ok (by rw [same])
    by_cases reserved : Symbol.isReserved name = true
    · simp only [marker, reserved, if_true]
      exact .same _
    by_cases twice : seen.contains name = true
    · simp only [marker, reserved, twice, if_true]
      exact .same _
    · simp only [marker, reserved, twice]
      exact ih _

theorem read_alike (alike : v.Alike ρ w) : Matched ρ Eq (read v) (read w) := by
  cases alike with
  | nil => exact .ok rfl
  | list all => exact readAfter_alike [] all
  | _ => exact .fault ⟨rfl, rfl⟩

end LambdaList

theorem Closure.make_alike {i j : Nat} {params params' body body' : Value}
    {env env' : Environment} (same : ρ.identity i j) (alike : params.Alike ρ params')
    (bodies : body.Alike ρ body') (around : ρ.environment env env') :
    Matched ρ (fun c d => Callable.Alike ρ (.closure c) (.closure d))
      (Closure.make i params body env) (Closure.make j params' body' env') := by
  unfold Closure.make
  refine (LambdaList.read_alike alike).elim (fun {l _} equal => ?_) fun e => .error e
  subst equal
  exact .ok (.closure same bodies around)

/-! ### Scopes of invocations -/

/-- Tables that bind the same names to values that are alike. -/
def Table.Alike (ρ : Likeness) (table table' : Table) : Prop :=
  ∀ name : String, Option.Rel (Value.Alike ρ) table[name]? table'[name]?

/-- Entries of the same names with values that are alike. -/
def Table.EntriesAlike (ρ : Likeness) : List (String × Value) → List (String × Value) → Prop :=
  Table.EntriesKin (Value.Alike ρ)

theorem Table.ofEntries_alike {entries entries' : List (String × Value)}
    (alike : Table.EntriesAlike ρ entries entries') :
    Table.Alike ρ (Table.ofEntries entries) (Table.ofEntries entries') :=
  Table.ofEntries_kin alike

/-- The invocation of closures that are alike binds the same names to values that are alike. -/
theorem Closure.arguments_alike {c d : Closure}
    (alike : Callable.Alike ρ (.closure c) (.closure d)) (all : Forall₂ (Value.Alike ρ) vs ws) :
    Table.EntriesAlike ρ (c.arguments vs) (d.arguments ws) := by
  have own : Value.Alike ρ (.callable (.closure c)) (.callable (.closure d)) := alike
  cases alike with
  | closure _ _ _ => exact Closure.arguments_kin own rfl rfl .nil .list all

/-! ### Expansions -/

/-- Bindings of names that are alike to expressions that are alike. -/
structure Binding.Alike (ρ : Likeness) (b b' : Binding) : Prop where
  name : b.name.Alike ρ b'.name
  init : b.init.Alike ρ b'.init

namespace Binding

theorem Alike.mono {ρ' : Likeness} (le : ρ.Le ρ') {b b' : Binding} (alike : b.Alike ρ b') :
    b.Alike ρ' b' :=
  ⟨alike.name.mono le, alike.init.mono le⟩

theorem isNameLike_alike (alike : v.Alike ρ w) : isNameLike v = isNameLike w := by
  cases alike <;> rfl

theorem read_alike (alike : v.Alike ρ w) : Matched ρ (Binding.Alike ρ) (read v) (read w) := by
  have malformed : Matched ρ (Binding.Alike ρ) (.error (Fault.evaluation (.malformedBinding v)))
      (.error (Fault.evaluation (.malformedBinding w))) := by
    refine .fault ⟨rfl, ?_⟩
    dsimp only [Fault.message, EvaluationFault.message]
    rw [alike.display]
  cases alike with
  | symbol name => exact .ok ⟨.symbol name, .nil⟩
  | list all =>
    cases all with
    | nil => exact malformed
    | cons name rest =>
      cases rest with
      | nil =>
        simp only [read, isNameLike_alike name]
        split
        · exact .ok ⟨name, .nil⟩
        · exact malformed
      | cons init rest =>
        cases rest with
        | nil =>
          simp only [read, isNameLike_alike name]
          split
          · exact .ok ⟨name, init⟩
          · exact malformed
        | cons _ _ => exact malformed
  | _ => exact malformed

theorem readAll_alike (alike : v.Alike ρ w) :
    Matched ρ (Forall₂ (Binding.Alike ρ)) (readAll v) (readAll w) := by
  cases alike with
  | nil => exact .ok .nil
  | list all => exact Matched.mapM read_alike all
  | _ => exact .fault ⟨rfl, rfl⟩

end Binding

namespace Library

variable {bindings bindings' : List Binding}

/-- Applications of operators that are alike to operands that are alike. -/
theorem apply_alike (operator : v.Alike ρ w) (operands : Forall₂ (Value.Alike ρ) vs ws) :
    (apply v vs).Alike ρ (apply w ws) :=
  .list (.cons operator operands)

theorem lambda_alike {params params' : List Value} (names : Forall₂ (Value.Alike ρ) params params')
    (body : Forall₂ (Value.Alike ρ) vs ws) : (lambda params vs).Alike ρ (lambda params' ws) :=
  apply_alike (.form (.inl trivial)) (.cons (.list names) body)

theorem self_alike : self.Alike ρ self := .symbol _

theorem parallelLet_alike (all : Forall₂ (Binding.Alike ρ) bindings bindings')
    (body : Forall₂ (Value.Alike ρ) vs ws) :
    (parallelLet bindings vs).Alike ρ (parallelLet bindings' ws) := by
  have names := List.rel_map (fun _ _ same => Binding.Alike.name same) all
  have inits := List.rel_map (fun _ _ same => Binding.Alike.init same) all
  exact apply_alike (lambda_alike (.cons self_alike names) body) (.cons self_alike inits)

theorem letForm_alike (all : Forall₂ (Binding.Alike ρ) bindings bindings')
    (body : Forall₂ (Value.Alike ρ) vs ws) :
    (letForm bindings vs).Alike ρ (letForm bindings' ws) := by
  refine apply_alike (.expander (.inl trivial)) (.cons (.list (List.rel_map ?_ all)) body)
  exact fun _ _ same => .list (.cons same.name (.cons same.init .nil))

theorem serialLet_alike (all : Forall₂ (Binding.Alike ρ) bindings bindings')
    (body : Forall₂ (Value.Alike ρ) vs ws) :
    (serialLet bindings vs).Alike ρ (serialLet bindings' ws) := by
  have backwards := List.rel_reverse all
  revert backwards
  unfold serialLet
  generalize bindings.reverse = bs
  generalize bindings'.reverse = bs'
  intro backwards
  cases backwards with
  | nil => exact letForm_alike .nil body
  | cons last before =>
    refine List.rel_foldl (P := Value.Alike ρ) ?_ (letForm_alike (.cons last .nil) body) before
    exact fun _ _ inner _ _ same => letForm_alike (.cons same .nil) (.cons inner .nil)

theorem conjunction_alike (all : Forall₂ (Value.Alike ρ) vs ws) :
    (conjunction vs).Alike ρ (conjunction ws) := by
  have backwards := List.rel_reverse all
  revert backwards
  unfold conjunction
  generalize vs.reverse = es
  generalize ws.reverse = es'
  intro backwards
  cases backwards with
  | nil => exact .truth
  | cons last before =>
    refine List.rel_foldl (P := Value.Alike ρ) ?_ last before
    exact fun _ _ rest _ _ operand =>
      apply_alike (.form (.inl trivial)) (.cons operand (.cons rest (.cons .nil .nil)))

theorem choice_alike {operand operand' rest rest' : Value} (first : operand.Alike ρ operand')
    (others : rest.Alike ρ rest') : (choice operand rest).Alike ρ (choice operand' rest') := by
  have v : (Value.symbol "v").Alike ρ (.symbol "v") := .symbol _
  have k : (Value.symbol "k").Alike ρ (.symbol "k") := .symbol _
  have test : Value.Alike ρ
      (apply (.form .conditional) [.symbol "v", .symbol "v", .list [.symbol "k", self]])
      (apply (.form .conditional) [.symbol "v", .symbol "v", .list [.symbol "k", self]]) :=
    apply_alike (.form (.inl trivial))
      (.cons v (.cons v (.cons (.list (.cons k (.cons self_alike .nil))) .nil)))
  exact apply_alike
    (lambda_alike (.cons self_alike (.cons v (.cons k .nil))) (.cons test .nil))
    (.cons self_alike (.cons first (.cons
      (lambda_alike (.cons self_alike .nil) (.cons others .nil)) .nil)))

theorem disjunction_alike (all : Forall₂ (Value.Alike ρ) vs ws) :
    (disjunction vs).Alike ρ (disjunction ws) := by
  have backwards := List.rel_reverse all
  revert backwards
  unfold disjunction
  generalize vs.reverse = es
  generalize ws.reverse = es'
  intro backwards
  cases backwards with
  | nil => exact .nil
  | cons last before =>
    refine List.rel_foldl (P := Value.Alike ρ) ?_ last before
    exact fun _ _ rest _ _ operand => choice_alike operand rest

end Library

/-- The expanders of the library replace alike operands by alike expressions. -/
theorem Expander.expand?_alike (x : Expander) (all : Forall₂ (Value.Alike ρ) vs ws) :
    Option.Rel (Matched ρ (Value.Alike ρ)) (x.expand? vs) (x.expand? ws) := by
  cases x with
  | parallelLet =>
    cases all with
    | nil => exact .some (.same _)
    | cons bindings body =>
      exact .some ((Binding.readAll_alike bindings).bind fun all =>
        .ok (Library.parallelLet_alike all body))
  | serialLet =>
    cases all with
    | nil => exact .some (.same _)
    | cons bindings body =>
      exact .some ((Binding.readAll_alike bindings).bind fun all =>
        .ok (Library.serialLet_alike all body))
  | conjunction => exact .some (.ok (Library.conjunction_alike all))
  | disjunction => exact .some (.ok (Library.disjunction_alike all))
  | host name => exact .none

/-- Only a host's expanders are none of the library's. -/
theorem Expander.expand?_eq_none {x : Expander} {operands : List Value}
    (none : x.expand? operands = none) : ∃ name, x = .host name := by
  cases x with
  | host name => exact ⟨name, rfl⟩
  | parallelLet | serialLet => cases operands <;> cases none
  | conjunction | disjunction => cases none

/-! ### Natives -/

/-- A refusal names nothing but numbers. -/
theorem Arity.validate_refusal {arity : Arity} {n : Nat} {e : Error}
    (refused : arity.validate n = .error e) : e.Alike ρ e := by
  unfold Arity.validate at refused
  split at refused
  · cases refused
  · cases refused
    exact .ofFault (.refl _)

/-- Being alike, with failures of the same kind and message. -/
def Likeness.kinship (ρ : Likeness) : Kinship :=
  ⟨Value.Alike ρ, Callable.Alike ρ, Fault.Alike⟩

theorem Likeness.observed (ρ : Likeness) : ρ.kinship.Observed where
  isNil alike := Value.Alike.isNil alike
  number? alike := Value.Alike.number? alike
  callable? alike := Value.Alike.callable? alike
  toList? alike := Value.Alike.toList? alike
  number := .number
  nil := .nil
  truth := .truth
  list := .list
  same := .refl
  notANumber {v w} alike := ⟨rfl, by
    dsimp only [Fault.message, TypeFault.message]
    rw [Value.Alike.display alike, Value.Alike.kind alike]⟩
  expectedNumber alike := ⟨rfl, by
    dsimp only [Fault.message, TypeFault.message]
    rw [Value.Alike.display alike, Value.Alike.kind alike]⟩
  expectedList alike := Value.Alike.kind alike ▸ .refl _
  incomparable first second := by
    rw [Value.Alike.kind first, Value.Alike.kind second]
    exact .refl _
  consOnto alike := Value.Alike.kind alike ▸ .refl _
  illegalCall alike := Value.Alike.display alike ▸ .refl _
  signalled all := Value.Alike.displayAll all ▸ .refl _

/-- Natives of the library cannot tell alike arguments apart. -/
theorem Primitive.run_alike (p : Primitive) (all : Forall₂ (Value.Alike ρ) vs ws) :
    Matched ρ (Reply.Alike ρ) (p.run vs) (p.run ws) := by
  have replied := ρ.observed.run p all
  revert replied
  generalize p.run vs = x
  generalize p.run ws = y
  intro replied
  cases replied with
  | fails related => exact .fault related
  | ok related =>
    cases related with
    | value same => exact .ok (.answer (.value same))
    | invoke callee all => exact .ok (.invoke callee all)

theorem Engine.bodyOf_alike (all : Forall₂ (Value.Alike ρ) vs ws) :
    (Engine.bodyOf vs).Alike ρ (Engine.bodyOf ws) := by
  cases all with
  | nil => exact .nil
  | cons first rest =>
    cases rest with
    | nil => exact first
    | cons second rest =>
      exact Library.apply_alike (.form (.inl trivial)) (.cons first (.cons second rest))

/-! ### The table -/

theorem Callable.Alike.core {c : Callable} (core : c.IsCore) : c.Alike ρ c := by
  cases c with
  | native n => exact .native (.inl core)
  | form f => exact .form (.inl core)
  | expander x => exact .expander (.inl core)
  | closure c => exact core.elim

namespace Library

theorem entries_core {entry : Entry} (listed : entry ∈ entries) : entry.callable.IsCore := by
  revert entry
  simp [entries, Entry.callable, Callable.IsCore]

/-- The library holds its entries and the nil marker. -/
theorem table_get {name : String} {v : Value} (found : table[name]? = some v) :
    v = .nil ∨ ∃ entry ∈ entries, v = .callable entry.callable := by
  rcases List.mem_append.mp (Table.mem_of_ofEntries_get found) with listed | own
  · obtain ⟨entry, member, same⟩ := List.mem_map.mp listed
    cases same
    exact Or.inr ⟨entry, member, rfl⟩
  · cases List.mem_singleton.mp own
    exact Or.inl rfl

/-- Whatever stands for each other, the library is like itself. -/
theorem table_alike {name : String} {v : Value} (found : table[name]? = some v) : v.Alike ρ v := by
  rcases table_get found with rfl | ⟨entry, member, rfl⟩
  · exact .nil
  · exact Callable.Alike.core (entries_core member)

end Library

end CooperativeLisp

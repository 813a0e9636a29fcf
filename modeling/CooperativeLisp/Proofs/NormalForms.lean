import Mathlib
import CooperativeLisp.Value.Equality
import CooperativeLisp.Proofs.Printing

/-!
Equality of values and their normal forms. The comparison meets the empty list in three of its
cases, alone and against the marker; with every empty list replaced by the marker it is plain
equality of trees. Main statement: two values are equal just when their normal forms match, so
equality is an equivalence where no number is a NaN, a congruence for lists, and respected by what
programs can see of a list.
-/

namespace CooperativeLisp

open List (Forall₂)

/-- Equal as IEEE numbers: a NaN equals nothing, and the two zeros are equal. -/
def Number.Equal (x y : Float) : Prop :=
  x ≠ Float.nan ∧ y ≠ Float.nan ∧ (x = y ∨ x = 0 ∧ y = -0 ∨ x = -0 ∧ y = 0)

/-- Callables of one kind with one name, or one and the same closure. -/
inductive Callable.Matches : Callable → Callable → Prop where
  | native {a b : Native} (named : a.name = b.name) : Matches (.native a) (.native b)
  | form {a b : Form} (named : a.name = b.name) : Matches (.form a) (.form b)
  | expander {a b : Expander} (named : a.name = b.name) : Matches (.expander a) (.expander b)
  | closure {a b : Closure} (same : a.identity = b.identity) : Matches (.closure a) (.closure b)

namespace Value

mutual

/-- The value with the nil marker in the place of every empty list. -/
def normal : Value → Value
  | list [] => nil
  | list (v :: vs) => list (v.normal :: normalAll vs)
  | v => v

def normalAll : List Value → List Value
  | [] => []
  | v :: vs => v.normal :: normalAll vs

end

/-- Trees of one shape with matching leaves. -/
inductive Matches : Value → Value → Prop where
  | number {x y : Float} (equal : Number.Equal x y) : Matches (number x) (number y)
  | symbol {name : String} : Matches (symbol name) (symbol name)
  | nil : Matches nil nil
  | truth : Matches truth truth
  | list {vs ws : List Value} (all : Forall₂ Matches vs ws) : Matches (list vs) (list ws)
  | callable {c d : Callable} (same : c.Matches d) : Matches (callable c) (callable d)

/-- No number in a value is a NaN. -/
def NaNFree (v : Value) : Prop :=
  ∀ x, (number x).OccursIn v → x.isNaN = false

end Value

theorem Value.NaNFree.item {v : Value} {vs : List Value} (free : (Value.list vs).NaNFree)
    (member : v ∈ vs) : v.NaNFree :=
  fun x inside => free x (.item member inside)

/-! ### Leaves -/

theorem Number.equal_iff {x y : Float} : (x == y) = true ↔ Number.Equal x y :=
  Float.beq_iff_ne_nan_and_eq

theorem Number.Equal.symm {x y : Float} (equal : Number.Equal x y) : Number.Equal y x := by
  obtain ⟨left, right, same | ⟨plus, minus⟩ | ⟨minus, plus⟩⟩ := equal
  · exact ⟨right, left, .inl same.symm⟩
  · exact ⟨right, left, .inr (.inr ⟨minus, plus⟩)⟩
  · exact ⟨right, left, .inr (.inl ⟨plus, minus⟩)⟩

theorem Number.Equal.trans {x y z : Float} (first : Number.Equal x y) (second : Number.Equal y z) :
    Number.Equal x z := by
  obtain ⟨left, -, first⟩ := first
  obtain ⟨-, right, second⟩ := second
  have zeros : (0 : Float) ≠ -0 := by decide +kernel
  refine ⟨left, right, ?_⟩
  rcases first with rfl | ⟨rfl, rfl⟩ | ⟨rfl, rfl⟩
  · exact second
  · rcases second with rfl | ⟨opposite, -⟩ | ⟨-, rfl⟩
    · exact .inr (.inl ⟨rfl, rfl⟩)
    · exact absurd opposite.symm zeros
    · exact .inl rfl
  · rcases second with rfl | ⟨-, rfl⟩ | ⟨opposite, -⟩
    · exact .inr (.inr ⟨rfl, rfl⟩)
    · exact .inl rfl
    · exact absurd opposite zeros

namespace Callable

variable {c d e : Callable}

theorem same_iff_matches : Callable.same c d = true ↔ c.Matches d := by
  constructor
  · intro equal
    cases c <;> cases d <;> simp only [Callable.same, beq_iff_eq, Bool.false_eq_true] at equal
    · exact .native equal
    · exact .form equal
    · exact .expander equal
    · exact .closure equal
  · intro same
    cases same <;> simpa [Callable.same]

theorem Matches.refl (c : Callable) : c.Matches c := by
  cases c with
  | native => exact .native rfl
  | form => exact .form rfl
  | expander => exact .expander rfl
  | closure => exact .closure rfl

theorem Matches.symm (same : c.Matches d) : d.Matches c := by
  cases same with
  | native named => exact .native named.symm
  | form named => exact .form named.symm
  | expander named => exact .expander named.symm
  | closure same => exact .closure same.symm

theorem Matches.trans (first : c.Matches d) (second : d.Matches e) : c.Matches e := by
  cases first with
  | native named => cases second with | native named' => exact .native (named.trans named')
  | form named => cases second with | form named' => exact .form (named.trans named')
  | expander named => cases second with | expander named' => exact .expander (named.trans named')
  | closure same => cases second with | closure same' => exact .closure (same.trans same')

end Callable

namespace Value

variable {a b c : Value} {vs ws : List Value}

/-! ### Matching trees -/

theorem Matches.kind (matching : a.Matches b) : a.kind = b.kind := by
  cases matching <;> rfl

theorem matches_number {x y : Float} : (number x).Matches (number y) ↔ Number.Equal x y :=
  ⟨fun | .number equal => equal, .number⟩

theorem matches_symbol {name other : String} :
    (symbol name).Matches (symbol other) ↔ name = other :=
  ⟨fun | .symbol => rfl, fun same => same ▸ .symbol⟩

theorem matches_list : (list vs).Matches (list ws) ↔ Forall₂ Matches vs ws :=
  ⟨fun | .list all => all, .list⟩

theorem matches_callable {c d : Callable} :
    (callable c).Matches (callable d) ↔ c.Matches d :=
  ⟨fun | .callable same => same, .callable⟩

theorem normal_of_isNil (empty : a.isNil = true) : a.normal = nil := by
  match a with
  | nil => rfl
  | list [] => rfl

theorem matches_nil : nil.Matches a.normal ↔ a.isNil = true := by
  constructor
  · intro matching
    match a with
    | nil => rfl
    | list [] => rfl
    | list (_ :: _) | number _ | symbol _ | truth | callable _ =>
      exact absurd matching.kind (by simp [normal, Value.kind])
  · intro empty
    rw [normal_of_isNil empty]
    exact .nil

mutual

theorem Matches.symm {a b : Value} (matching : a.Matches b) : b.Matches a := by
  match matching with
  | .number equal => exact .number equal.symm
  | .symbol => exact .symbol
  | .nil => exact .nil
  | .truth => exact .truth
  | .list all => exact .list (symmAll all)
  | .callable same => exact .callable same.symm

theorem Matches.symmAll {vs ws : List Value} (all : Forall₂ Matches vs ws) :
    Forall₂ Matches ws vs := by
  match all with
  | .nil => exact .nil
  | .cons first others => exact .cons first.symm (symmAll others)

end

mutual

theorem Matches.trans {a b c : Value} (first : a.Matches b) (second : b.Matches c) :
    a.Matches c := by
  match first with
  | .number equal => cases second with | number equal' => exact .number (equal.trans equal')
  | .symbol => exact second
  | .nil => exact second
  | .truth => exact second
  | .list all => cases second with | list all' => exact .list (transAll all all')
  | .callable same => cases second with | callable same' => exact .callable (same.trans same')

theorem Matches.transAll {us vs ws : List Value} (all : Forall₂ Matches us vs)
    (all' : Forall₂ Matches vs ws) : Forall₂ Matches us ws := by
  match all with
  | .nil => exact all'
  | .cons first others =>
    cases all' with
    | cons first' others' => exact .cons (first.trans first') (transAll others others')

end

/-! ### Equality of values -/

theorem same_empty : same (list []) b = b.isNil := by
  match b with
  | nil => rfl
  | list [] => rfl
  | list (_ :: _) | number _ | symbol _ | truth | callable _ => rfl

/-- Values whose normal forms are of different kinds do not match. -/
theorem same_apart (apart : a.normal.kind ≠ b.normal.kind) (unequal : same a b = false) :
    same a b = true ↔ a.normal.Matches b.normal :=
  iff_of_false (by simp [unequal]) (mt Matches.kind apart)

mutual

/-- Equal values have matching normal forms, and no others have. -/
theorem same_iff_normal (a b : Value) : same a b = true ↔ a.normal.Matches b.normal := by
  match a with
  | nil => exact matches_nil.symm
  | list [] =>
    rw [same_empty]
    exact matches_nil.symm
  | list (v :: vs) =>
    match b with
    | list (w :: ws) => exact (sameAll_iff_normalAll (v :: vs) (w :: ws)).trans matches_list.symm
    | nil | list [] | number _ | symbol _ | truth | callable _ =>
      exact same_apart (by simp [normal, Value.kind]) rfl
  | number x =>
    match b with
    | number y => exact Number.equal_iff.trans matches_number.symm
    | nil | list [] | list (_ :: _) | symbol _ | truth | callable _ =>
      exact same_apart (by simp [normal, Value.kind]) rfl
  | symbol name =>
    match b with
    | symbol other => exact beq_iff_eq.trans matches_symbol.symm
    | nil | list [] | list (_ :: _) | number _ | truth | callable _ =>
      exact same_apart (by simp [normal, Value.kind]) rfl
  | truth =>
    match b with
    | truth => exact iff_of_true rfl .truth
    | nil | list [] | list (_ :: _) | number _ | symbol _ | callable _ =>
      exact same_apart (by simp [normal, Value.kind]) rfl
  | callable c =>
    match b with
    | callable d => exact Callable.same_iff_matches.trans matches_callable.symm
    | nil | list [] | list (_ :: _) | number _ | symbol _ | truth =>
      exact same_apart (by simp [normal, Value.kind]) rfl

theorem sameAll_iff_normalAll (vs ws : List Value) :
    sameAll vs ws = true ↔ Forall₂ Matches (normalAll vs) (normalAll ws) := by
  match vs, ws with
  | [], [] => exact iff_of_true rfl .nil
  | [], _ :: _ => exact iff_of_false nofun nofun
  | _ :: _, [] => exact iff_of_false nofun nofun
  | v :: vs, w :: ws =>
    rw [sameAll, Bool.and_eq_true, same_iff_normal v w, sameAll_iff_normalAll vs ws, normalAll,
      normalAll, List.forall₂_cons]

end

mutual

/-- A value without a NaN is equal to itself. -/
theorem matches_normal_self (v : Value) (free : v.NaNFree) : v.normal.Matches v.normal := by
  match v with
  | nil => exact .nil
  | list [] => exact .nil
  | list (v :: vs) =>
    exact .list (.cons (matches_normal_self v (free.item List.mem_cons_self))
      (matches_normalAll_self vs fun w member => free.item (List.mem_cons_of_mem v member)))
  | number x =>
    have numeric : x ≠ Float.nan := by simpa [Float.isNaN_eq_decide_eq_nan] using free x .self
    exact .number ⟨numeric, numeric, .inl rfl⟩
  | symbol _ => exact .symbol
  | truth => exact .truth
  | callable c => exact .callable (.refl c)

theorem matches_normalAll_self (vs : List Value) (free : ∀ v ∈ vs, v.NaNFree) :
    Forall₂ Matches (normalAll vs) (normalAll vs) := by
  match vs with
  | [] => exact .nil
  | v :: vs =>
    exact .cons (matches_normal_self v (free v List.mem_cons_self))
      (matches_normalAll_self vs fun w member => free w (List.mem_cons_of_mem v member))

end

theorem beq_iff_normal : (a == b) = true ↔ a.normal.Matches b.normal :=
  same_iff_normal a b

/-- Lists are equal element by element. -/
theorem list_beq_iff :
    (list vs == list ws) = true ↔ Forall₂ (fun v w => (v == w) = true) vs ws := by
  change sameAll vs ws = true ↔ _
  induction vs generalizing ws with
  | nil => cases ws <;> simp [sameAll]
  | cons v vs ih =>
    cases ws with
    | nil => simp [sameAll]
    | cons w ws =>
      rw [sameAll, Bool.and_eq_true, ih, List.forall₂_cons]
      rfl

theorem isNil_eq_of_beq (equal : (a == b) = true) : a.isNil = b.isNil := by
  have matching := beq_iff_normal.mp equal
  rw [Bool.eq_iff_iff]
  constructor
  · intro empty
    rw [normal_of_isNil empty] at matching
    exact matches_nil.mp matching
  · intro empty
    rw [normal_of_isNil empty] at matching
    exact matches_nil.mp matching.symm

theorem Matches.toList? (matching : a.Matches b) :
    Option.Rel (Forall₂ Matches) a.toList? b.toList? := by
  cases matching with
  | nil => exact .some .nil
  | list all => exact .some all
  | _ => exact .none

theorem toList?_normal : a.normal.toList? = a.toList?.map normalAll := by
  match a with
  | list [] => rfl
  | list (_ :: _) => rfl
  | nil | number _ | symbol _ | truth | callable _ => rfl

/-- Equal values are seen as equal lists, or neither is seen as a list. -/
theorem toList?_of_beq (equal : (a == b) = true) :
    Option.Rel (Forall₂ fun v w => (v == w) = true) a.toList? b.toList? := by
  have related := (beq_iff_normal.mp equal).toList?
  rw [toList?_normal, toList?_normal] at related
  generalize a.toList? = x at related ⊢
  generalize b.toList? = y at related ⊢
  cases x with
  | none =>
    cases y with
    | none => exact .none
    | some ws => nomatch related
  | some vs =>
    cases y with
    | none => nomatch related
    | some ws =>
      cases related with
      | some all => exact .some (list_beq_iff.mp ((sameAll_iff_normalAll vs ws).mpr all))

/-- Equality of values is equality of their normal forms. So it is an equivalence on the values
without a NaN, lists with equal elements around equal values are equal, and equal values agree on
whether they are nil, whether they are true and, element by element, on what they are as lists. -/
theorem equality_of_normal_forms :
    (∀ a b : Value, (a == b) = true ↔ a.normal.Matches b.normal) ∧
    Equivalence (fun a b : {v : Value // v.NaNFree} => (a.val == b.val) = true) ∧
    (∀ {a b : Value} {front front' back back' : List Value}, (a == b) = true →
      (list front == list front') = true → (list back == list back') = true →
      (list (front ++ a :: back) == list (front' ++ b :: back')) = true) ∧
    ∀ {a b : Value}, (a == b) = true → a.isNil = b.isNil ∧ a.isTrue = b.isTrue ∧
      Option.Rel (Forall₂ fun v w => (v == w) = true) a.toList? b.toList? := by
  refine ⟨fun _ _ => beq_iff_normal, ⟨?_, ?_, ?_⟩, ?_, ?_⟩
  · exact fun a => beq_iff_normal.mpr (matches_normal_self a.val a.property)
  · exact fun equal => beq_iff_normal.mpr (beq_iff_normal.mp equal).symm
  · exact fun first second =>
      beq_iff_normal.mpr ((beq_iff_normal.mp first).trans (beq_iff_normal.mp second))
  · intro a b front front' back back' equal before behind
    rw [list_beq_iff] at *
    exact List.rel_append before (.cons equal behind)
  · intro a b equal
    have same := isNil_eq_of_beq equal
    exact ⟨same, by rw [isTrue, isTrue, same], toList?_of_beq equal⟩

/-- Empty lists and markers that stand in each other's place, at two depths, beside two zeros. -/
theorem equality_of_normal_forms_mixed :
    (list [nil, list [list [], number 0.0]] == list [list [], list [nil, number (-0.0)]]) = true ∧
    Option.Rel (Forall₂ fun v w => (v == w) = true)
      (list [nil, list [list [], number 0.0]]).toList?
      (list [list [], list [nil, number (-0.0)]]).toList? := by
  have equal : (list [nil, list [list [], number 0.0]] ==
      list [list [], list [nil, number (-0.0)]]) = true := by decide +kernel
  exact ⟨equal, (equality_of_normal_forms.2.2.2 equal).2.2⟩

end Value

end CooperativeLisp

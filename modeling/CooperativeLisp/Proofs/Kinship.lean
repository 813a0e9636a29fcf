import Mathlib.Data.List.Forall2
import CooperativeLisp.Library.Natives
import CooperativeLisp.Proofs.Scopes

/-!
What natives of the library look at. A native sees of a value whether it is nil, which number or
callable it is and what its elements are. So whatever relation on values keeps these, natives reply
to related arguments with related replies, or fail for related causes, and invocations of closures
with them open scopes that bind the same names to related values.
-/

namespace CooperativeLisp

open List (Forall₂)

/-- Relations on values, on callables and on causes of failure. -/
structure Kinship where
  value : Value → Value → Prop
  callable : Callable → Callable → Prop
  fault : Fault → Fault → Prop

namespace Kinship

variable {α β α' β' : Type}

/-- Related values look the same to natives, up to the relation. Causes that natives name are
related if the values in them are. -/
structure Observed (K : Kinship) : Prop where
  isNil : ∀ {v w}, K.value v w → v.isNil = w.isNil
  number? : ∀ {v w}, K.value v w → v.number? = w.number?
  callable? : ∀ {v w}, K.value v w → Option.Rel K.callable v.callable? w.callable?
  toList? : ∀ {v w}, K.value v w → Option.Rel (Forall₂ K.value) v.toList? w.toList?
  number : ∀ x, K.value (.number x) (.number x)
  nil : K.value .nil .nil
  truth : K.value .truth .truth
  list : ∀ {vs ws}, Forall₂ K.value vs ws → K.value (.list vs) (.list ws)
  same : ∀ f, K.fault f f
  notANumber : ∀ {v w}, K.value v w → K.fault (.type (.notANumber v)) (.type (.notANumber w))
  expectedNumber : ∀ {v w}, K.value v w →
    K.fault (.type (.expectedNumber v)) (.type (.expectedNumber w))
  expectedList : ∀ {v w}, K.value v w →
    K.fault (.type (.expectedList v.kind)) (.type (.expectedList w.kind))
  incomparable : ∀ {v w v' w'}, K.value v w → K.value v' w' →
    K.fault (.type (.incomparable v.kind v'.kind)) (.type (.incomparable w.kind w'.kind))
  consOnto : ∀ {v w}, K.value v w →
    K.fault (.type (.consOnto v.kind)) (.type (.consOnto w.kind))
  illegalCall : ∀ {v w}, K.value v w → K.fault (.illegalCall v.display) (.illegalCall w.display)
  signalled : ∀ {vs ws}, Forall₂ K.value vs ws →
    K.fault (.evaluation (.signalled (Value.displayAll vs)))
      (.evaluation (.signalled (Value.displayAll ws)))

/-- Both ends are results that are related, or failures whose causes are. -/
inductive Ends (K : Kinship) (R : α → β → Prop) : Except Error α → Except Error β → Prop
  | ok {a : α} {b : β} : R a b → Ends K R (.ok a) (.ok b)
  | fails {f g : Fault} : K.fault f g → Ends K R (.error (.ofFault f)) (.error (.ofFault g))

inductive Replies (K : Kinship) : Reply → Reply → Prop
  | value {v w : Value} : K.value v w → Replies K (.answer (.value v)) (.answer (.value w))
  | invoke {c d : Callable} {vs ws : List Value} : K.callable c d → Forall₂ K.value vs ws →
      Replies K (.invoke c vs) (.invoke d ws)

variable {K : Kinship} {R : α → β → Prop} {S : α' → β' → Prop}

namespace Ends

theorem bind {x : Except Error α} {y : Except Error β} {f : α → Except Error α'}
    {g : β → Except Error β'} (first : K.Ends R x y)
    (rest : ∀ {a b}, R a b → K.Ends S (f a) (g b)) : K.Ends S (x >>= f) (y >>= g) := by
  cases first with
  | ok related => exact rest related
  | fails related => exact .fails related

theorem mono {R' : α → β → Prop} {x : Except Error α} {y : Except Error β} (ends : K.Ends R x y)
    (weaker : ∀ {a b}, R a b → R' a b) : K.Ends R' x y := by
  cases ends with
  | ok related => exact .ok (weaker related)
  | fails related => exact .fails related

end Ends

end Kinship

variable {K : Kinship} {v w : Value} {vs ws : List Value}

/-! ### Signatures -/

/-- Elements as a function receives them, of related arguments. -/
def Elements.Kin (K : Kinship) : (e : Elements) → e.Denote → e.Denote → Prop
  | .anything => K.value
  | .numbers => Eq

/-- An argument as a function receives it, of related arguments. -/
def Parameter.Kin (K : Kinship) : (p : Parameter) → p.Denote → p.Denote → Prop
  | .anything => K.value
  | .number => Eq
  | .callable => K.callable
  | .list elements => Forall₂ (elements.Kin K)

/-- Functions that make related results of related arguments. -/
def Parameter.FunctionsKin {α : Type} (K : Kinship) (R : α → α → Prop) :
    (params : List Parameter) → Function params α → Function params α → Prop
  | [], a, b => R a b
  | p :: params, f, g => ∀ x y, p.Kin K x y → FunctionsKin K R params (f x) (g y)

theorem Elements.eq_of_kin {xs ys : List Float} (kin : Forall₂ (Elements.Kin K .numbers) xs ys) :
    xs = ys :=
  List.forall₂_eq_eq_eq ▸ kin

namespace Kinship.Observed

open Parameter (Function FunctionsKin)

section Adapters

variable (observed : K.Observed)
include observed

theorem numbersOf (all : Forall₂ K.value vs ws) :
    K.Ends Eq (Elements.numbersOf vs) (Elements.numbersOf ws) := by
  have numbers : vs.map Elements.asNumber = ws.map Elements.asNumber := by
    induction all with
    | nil => rfl
    | cons first _ ih =>
      simp only [List.map_cons, Elements.asNumber, observed.number? first, List.cons.injEq,
        true_and]
      exact ih
  have wrong : Option.Rel K.value (vs.find? (·.number?.isNone)) (ws.find? (·.number?.isNone)) := by
    clear numbers
    induction all with
    | nil => exact .none
    | cons first _ ih =>
      rw [List.find?_cons, List.find?_cons, observed.number? first]
      split
      · exact .some first
      · exact ih
  unfold Elements.numbersOf
  revert wrong
  generalize vs.find? (·.number?.isNone) = x
  generalize ws.find? (·.number?.isNone) = y
  intro wrong
  cases wrong with
  | none => exact .ok numbers
  | some same => exact .fails (observed.expectedNumber same)

theorem elements (e : Elements) (all : Forall₂ K.value vs ws) :
    K.Ends (Forall₂ (e.Kin K)) (e.convert vs) (e.convert ws) := by
  cases e with
  | anything => exact .ok all
  | numbers =>
    exact (observed.numbersOf all).mono fun same => List.forall₂_eq_eq_eq ▸ same

theorem convert (p : Parameter) (kin : K.value v w) :
    K.Ends (p.Kin K) (p.convert v) (p.convert w) := by
  cases p with
  | anything => exact .ok kin
  | number =>
    unfold Parameter.convert
    dsimp only
    rw [observed.number? kin]
    split
    · exact .ok rfl
    · exact .fails (observed.notANumber kin)
  | callable =>
    have callables := observed.callable? kin
    unfold Parameter.convert
    dsimp only
    revert callables
    generalize v.callable? = x
    generalize w.callable? = y
    intro callables
    cases callables with
    | none => exact .fails (observed.illegalCall kin)
    | some same => exact .ok same
  | list elements =>
    have items := observed.toList? kin
    unfold Parameter.convert
    dsimp only
    revert items
    generalize v.toList? = x
    generalize w.toList? = y
    intro items
    cases items with
    | none => exact .fails (observed.expectedList kin)
    | some all => exact observed.elements elements all

theorem supply {α : Type} {R : α → α → Prop} (params : List Parameter) {f g : Function params α}
    (functions : FunctionsKin K R params f g) (all : Forall₂ K.value vs ws) :
    K.Ends (fun a b => R a.1 b.1 ∧ Forall₂ K.value a.2 b.2) (Parameter.supply params f vs)
      (Parameter.supply params g ws) := by
  induction params generalizing vs ws with
  | nil => exact .ok ⟨functions, all⟩
  | cons p params ih =>
    cases all with
    | nil => exact .fails (observed.same _)
    | @cons v w vs ws first rest =>
      have converted := observed.convert p first
      unfold Parameter.supply
      revert converted
      generalize p.convert v = x
      generalize p.convert w = y
      intro converted
      cases converted with
      | ok same => exact ih (functions _ _ same) rest
      | fails related => exact .fails related

theorem fixed {params : List Parameter} {f : Function params (Except Error Reply)}
    (functions : FunctionsKin K (K.Ends K.Replies) params f f) (all : Forall₂ K.value vs ws) :
    K.Ends K.Replies (fixed params f vs) (fixed params f ws) := by
  have supplied := observed.supply params functions all
  unfold CooperativeLisp.fixed
  rw [all.length_eq]
  split
  · revert supplied
    generalize Parameter.supply params f vs = x
    generalize Parameter.supply params f ws = y
    intro supplied
    cases supplied with
    | ok same => exact same.1
    | fails related => exact .fails related
  · exact .fails (observed.same _)

theorem validate (arity : Arity) (n : Nat) :
    K.Ends (fun _ _ => True) (arity.validate n) (arity.validate n) := by
  unfold Arity.validate
  split
  · exact .ok trivial
  · exact .fails (observed.same _)

theorem variadic (arity : Arity) (params : List Parameter) (rest : Elements)
    {f : Function params (List rest.Denote → Except Error Reply)}
    (functions : FunctionsKin K (fun g h => ∀ xs ys, Forall₂ (rest.Kin K) xs ys →
      K.Ends K.Replies (g xs) (h ys)) params f f)
    (all : Forall₂ K.value vs ws) :
    K.Ends K.Replies (variadic arity params rest f vs) (variadic arity params rest f ws) := by
  have counted := observed.validate arity ws.length
  have supplied := observed.supply params functions all
  unfold CooperativeLisp.variadic
  rw [all.length_eq]
  revert counted
  generalize arity.validate ws.length = count
  intro counted
  cases counted with
  | fails related => exact .fails related
  | ok _ =>
    dsimp only
    split
    · exact .fails (observed.same _)
    revert supplied
    generalize Parameter.supply params f vs = x
    generalize Parameter.supply params f ws = y
    intro supplied
    cases supplied with
    | fails related => exact .fails related
    | @ok a b same =>
      have converted := observed.elements rest same.2
      dsimp only
      revert converted
      generalize rest.convert a.2 = x
      generalize rest.convert b.2 = y
      intro converted
      cases converted with
      | ok all => exact same.1 _ _ all
      | fails related => exact .fails related

/-! ### Natives -/

theorem ofBool (b : Bool) : K.value (.ofBool b) (.ofBool b) := by
  cases b
  · exact observed.nil
  · exact observed.truth

theorem headD (all : Forall₂ K.value vs ws) : K.value (vs.headD .nil) (ws.headD .nil) := by
  cases all with
  | nil => exact observed.nil
  | cons first _ => exact first

theorem allEqual (kin : K.value v w) (all : Forall₂ K.value vs ws) :
    K.Ends Eq (Library.allEqual v vs) (Library.allEqual w ws) := by
  induction all generalizing v w with
  | nil => exact .ok rfl
  | @cons v' w' _ _ first _ ih =>
    unfold Library.allEqual
    rw [observed.isNil kin, observed.isNil first, observed.number? kin, observed.number? first]
    split
    · exact ih first
    · split
      · split
        · exact ih first
        · exact .ok rfl
      · exact .fails (observed.incomparable kin first)

theorem cons {rest rest' : Value} (first : K.value v w) (others : K.value rest rest') :
    K.Ends K.value (Library.cons v rest) (Library.cons w rest') := by
  have items := observed.toList? others
  unfold Library.cons
  revert items
  generalize rest.toList? = x
  generalize rest'.toList? = y
  intro items
  cases items with
  | none => exact .fails (observed.consOnto others)
  | some all => exact .ok (observed.list (.cons first all))

theorem nth (index : Float) (all : Forall₂ K.value vs ws) :
    K.Ends K.value (Library.nth index vs) (Library.nth index ws) := by
  unfold Library.nth
  rw [all.length_eq]
  split
  · exact .fails (observed.same _)
  · split
    · exact .fails (observed.same _)
    · rename_i i _ _
      by_cases inside : i.toNat < ws.length
      · have here := List.forall₂_iff_get.mp all |>.2 i.toNat (all.length_eq ▸ inside) inside
        rw [List.getElem?_eq_getElem (all.length_eq ▸ inside), List.getElem?_eq_getElem inside]
        exact .ok here
      · rw [List.getElem?_eq_none (all.length_eq ▸ Nat.le_of_not_lt inside),
          List.getElem?_eq_none (Nat.le_of_not_lt inside)]
        exact .fails (observed.same _)

/-- Division refuses for a cause that names nothing. -/
theorem quotient (first : Float) (rest : List Float) :
    K.Ends Eq (Library.quotient first rest) (Library.quotient first rest) := by
  have division : ∀ x y : Float, K.Ends Eq (Library.divide x y) (Library.divide x y) := by
    intro x y
    unfold Library.divide
    split
    · exact .fails (observed.same _)
    · exact .ok rfl
  have divisions : ∀ x : Float,
      K.Ends Eq (rest.foldlM Library.divide x) (rest.foldlM Library.divide x) := by
    induction rest with
    | nil => exact fun x => .ok rfl
    | cons y rest ih =>
      intro x
      rw [List.foldlM_cons]
      exact (division x y).bind fun same => same ▸ ih _
  unfold Library.quotient
  split
  · exact division 1.0 first
  · exact divisions first

theorem raise (all : Forall₂ K.value vs ws) :
    K.Ends K.Replies (.error (Library.raise vs)) (.error (Library.raise ws)) := by
  cases all with
  | nil => exact .fails (observed.same _)
  | cons first rest => exact .fails (observed.signalled (.cons first rest))

theorem call (all : Forall₂ K.value vs ws) :
    K.Ends K.Replies (Library.call vs) (Library.call ws) := by
  have refusal : ∀ {v : Value} {args : List Value}, v.callable? = none →
      Library.call (v :: args) = .error (.ofFault (.illegalCall v.display)) := by
    intro v args none
    cases v <;> first | rfl | cases none
  have invocation : ∀ {v : Value} {c : Callable} {args : List Value}, v.callable? = some c →
      Library.call (v :: args) = .ok (.invoke c args) := by
    intro v c args some
    cases v <;> cases some
    rfl
  cases all with
  | nil => exact .fails (observed.same _)
  | @cons v w _ _ first rest =>
    have callables := observed.callable? first
    cases left : v.callable? with
    | none =>
      cases right : w.callable? with
      | none =>
        rw [refusal left, refusal right]
        exact .fails (observed.illegalCall first)
      | some d =>
        rw [left, right] at callables
        cases callables
    | some c =>
      cases right : w.callable? with
      | none =>
        rw [left, right] at callables
        cases callables
      | some d =>
        rw [left, right] at callables
        cases callables with
        | some same =>
          rw [invocation left, invocation right]
          exact .ok (.invoke same rest)

theorem body (p : Primitive) (all : Forall₂ K.value vs ws) :
    K.Ends K.Replies (p.body vs) (p.body ws) := by
  have value : ∀ {v w}, K.value v w →
      K.Ends K.Replies (replyValue v : Except Error Reply) (replyValue w) :=
    fun kin => .ok (.value kin)
  have flag := fun b => value (observed.ofBool b)
  have number := fun x => value (observed.number x)
  cases p with
  | add | multiply =>
    refine observed.variadic .any [] .numbers ?_ all
    intro xs ys same
    obtain rfl := Elements.eq_of_kin same
    exact number _
  | subtract =>
    refine observed.variadic .any [.number] .numbers ?_ all
    intro x _ same xs ys others
    obtain rfl : x = _ := same
    obtain rfl := Elements.eq_of_kin others
    exact number _
  | divide =>
    refine observed.variadic .any [.number] .numbers ?_ all
    intro x _ same xs ys others
    obtain rfl : x = _ := same
    obtain rfl := Elements.eq_of_kin others
    exact (observed.quotient x xs).bind fun same => same ▸ number _
  | greater | less | atLeast | atMost =>
    refine observed.variadic .any [.number] .numbers ?_ all
    intro x _ same xs ys others
    obtain rfl : x = _ := same
    obtain rfl := Elements.eq_of_kin others
    exact flag _
  | equal =>
    refine observed.variadic .any [.anything] .anything ?_ all
    intro v w same vs ws others
    exact (observed.allEqual same others).bind fun equal => equal ▸ flag _
  | not | isNull =>
    refine observed.fixed (fun v w same => ?_) all
    have same : K.value v w := same
    show K.Ends K.Replies (replyValue (.ofBool v.isNil) : Except Error Reply)
      (replyValue (.ofBool w.isNil))
    rw [observed.isNil same]
    exact flag _
  | cons =>
    exact observed.fixed (fun v w same vs ws others => (observed.cons same others).bind value) all
  | car => exact observed.fixed (fun vs ws same => value (observed.headD same)) all
  | cdr =>
    refine observed.fixed (fun vs ws same => value (observed.list ?_)) all
    cases same with
    | nil => exact .nil
    | cons _ rest => exact rest
  | list => exact value (observed.list all)
  | length =>
    refine observed.fixed (fun vs ws same => ?_) all
    rw [List.Forall₂.length_eq same]
    exact number _
  | nth =>
    refine observed.fixed (fun x _ same vs ws others => ?_) all
    obtain rfl : x = _ := same
    exact (observed.nth x others).bind value
  | call => exact observed.call all
  | apply => exact observed.fixed (fun c d same vs ws others => .ok (.invoke same others)) all
  | error =>
    dsimp only [Primitive.body]
    exact observed.variadic .any [] .anything (fun vs ws same => observed.raise same) all

/-- Natives of the library reply to related arguments with related replies. -/
theorem run (p : Primitive) (all : Forall₂ K.value vs ws) :
    K.Ends K.Replies (p.run vs) (p.run ws) := by
  unfold Primitive.run
  rw [all.length_eq]
  exact (observed.validate p.arity ws.length).bind fun _ => observed.body p all

end Adapters

end Kinship.Observed

/-! ### Scopes of invocations -/

variable {V : Value → Value → Prop}

/-- Entries of the same names with related values. -/
def Table.EntriesKin (V : Value → Value → Prop) :
    List (String × Value) → List (String × Value) → Prop :=
  Forall₂ fun entry entry' => entry.1 = entry'.1 ∧ V entry.2 entry'.2

theorem Table.ofEntries_kin {entries entries' : List (String × Value)}
    (kin : Table.EntriesKin V entries entries') (name : String) :
    Option.Rel V (Table.ofEntries entries)[name]? (Table.ofEntries entries')[name]? := by
  rw [Table.ofEntries_get, Table.ofEntries_get]
  have backwards := List.rel_reverse kin
  revert backwards
  generalize entries.reverse = es
  generalize entries'.reverse = es'
  intro backwards
  induction backwards with
  | nil => exact .none
  | @cons entry entry' _ _ first _ ih =>
    obtain ⟨key, v⟩ := entry
    obtain ⟨key', v'⟩ := entry'
    obtain ⟨rfl, same⟩ := first
    rw [List.lookup_cons, List.lookup_cons]
    cases name == key with
    | true => exact .some same
    | false => exact ih

theorem Table.zip_kin {names : List String} (all : Forall₂ V vs ws) :
    Table.EntriesKin V (names.zip vs) (names.zip ws) := by
  induction all generalizing names with
  | nil => cases names <;> exact .nil
  | cons first _ ih =>
    cases names with
    | nil => exact .nil
    | cons name names => exact .cons ⟨rfl, first⟩ ih

/-- The invocation of closures with the same parameters binds the same names to related values. -/
theorem Closure.arguments_kin {c d : Closure} (own : V (.callable (.closure c)) (.callable (.closure d)))
    (params : c.params = d.params) (rest : c.rest = d.rest) (nil : V .nil .nil)
    (list : ∀ {vs ws}, Forall₂ V vs ws → V (.list vs) (.list ws)) (all : Forall₂ V vs ws) :
    Table.EntriesKin V (c.arguments vs) (d.arguments ws) := by
  unfold Closure.arguments
  rw [params, rest, all.length_eq]
  refine List.rel_append (.cons ⟨rfl, own⟩ (Table.zip_kin (List.rel_append all ?_))) ?_
  · induction d.params.length - ws.length with
    | zero => exact .nil
    | succ n ih => exact .cons nil ih
  · cases d.rest.name? with
    | none => exact .nil
    | some name => exact .cons ⟨rfl, list (List.forall₂_drop _ all)⟩ .nil

/-- The invocation of a closure binds every parameter, whatever the number of arguments. -/
theorem Closure.arguments_bound (c : Closure) (args : List Value) {name : String}
    (param : name ∈ c.params) : (Table.ofEntries (c.arguments args))[name]?.isSome := by
  obtain ⟨i, within, rfl⟩ := List.getElem_of_mem param
  generalize filled : args ++ List.replicate (c.params.length - args.length) .nil = values
  have enough : i < values.length := by
    rw [← filled, List.length_append, List.length_replicate]
    omega
  have entry : (c.params[i], values[i]) ∈ c.params.zip values := by
    rw [List.mem_iff_getElem]
    exact ⟨i, by rw [List.length_zip]; omega, List.getElem_zip⟩
  have listed : (c.params[i], values[i]) ∈ (c.arguments args).reverse := by
    rw [List.mem_reverse, Closure.arguments, filled]
    exact List.mem_append_left _ (.tail _ entry)
  rw [Table.ofEntries_get, Option.isSome_iff_ne_none]
  intro unbound
  exact absurd rfl (bne_iff_ne.mp (List.lookup_eq_none_iff.mp unbound _ listed))

end CooperativeLisp

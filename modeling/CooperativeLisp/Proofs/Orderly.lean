import CooperativeLisp.Library.Natives

/-!
What the natives of the library never do: none of them answers with a stream built by hand, and
none fails with an internal error. Both hold of a signature whatever function stands behind it, as
long as they hold of the function.
-/

namespace CooperativeLisp

/-- The reply is not a stream built by hand, and the failure is not an internal one. -/
def Orderly : Except Error Reply → Prop
  | .ok (.answer (.stream _)) => False
  | .ok _ => True
  | .error e => e.fault.kind ≠ .internal

theorem Error.of_bind {α β : Type} {x : Except Error α} {k : α → Except Error β} {e : Error}
    (failed : (x >>= k) = .error e) : x = .error e ∨ ∃ a, k a = .error e := by
  cases x with
  | error e' =>
    cases failed
    exact Or.inl rfl
  | ok a => exact Or.inr ⟨a, failed⟩

/-- A failure as it is raised: its cause lies outside the engine, and no expression is in its
backtrace yet. -/
structure Error.Raised (e : Error) : Prop where
  kind : e.fault.kind ≠ .internal
  backtrace : e.backtrace = []

theorem Arity.validate_raised {a : Arity} {count : Nat} {e : Error}
    (refused : a.validate count = .error e) : e.Raised := by
  unfold validate at refused
  split at refused
  · cases refused
  · cases refused
    exact ⟨nofun, rfl⟩

namespace Elements

theorem convert_kind {elements : Elements} {vs : List Value} {e : Error}
    (refused : elements.convert vs = .error e) : e.fault.kind ≠ .internal := by
  cases elements with
  | anything => cases refused
  | numbers =>
    change numbersOf vs = .error e at refused
    unfold numbersOf at refused
    split at refused
    · cases refused
      exact nofun
    · cases refused

end Elements

namespace Parameter

theorem convert_kind {p : Parameter} {v : Value} {e : Error} (refused : p.convert v = .error e) :
    e.fault.kind ≠ .internal := by
  cases p with
  | anything => cases refused
  | number =>
    cases found : v.number? with
    | some x => simp [convert, found] at refused
    | none =>
      simp only [convert, found] at refused
      cases refused
      exact nofun
  | callable =>
    cases found : v.callable? with
    | some c => simp [convert, found] at refused
    | none =>
      simp only [convert, found] at refused
      cases refused
      exact nofun
  | list elements =>
    cases found : v.toList? with
    | some items =>
      simp only [convert, found] at refused
      exact Elements.convert_kind refused
    | none =>
      simp only [convert, found] at refused
      cases refused
      exact nofun

/-- Whatever a function is given, its result has the property. -/
def Always {α : Type} (P : α → Prop) : (params : List Parameter) → Function params α → Prop
  | [], x => P x
  | _ :: params, f => ∀ x, Always P params (f x)

theorem Always.supply {α : Type} {P : α → Prop} {params : List Parameter} {f : Function params α}
    (always : Always P params f) {args left : List Value} {x : α}
    (supplied : supply params f args = .ok (x, left)) : P x := by
  induction params generalizing args with
  | nil =>
    cases supplied
    exact always
  | cons p params ih =>
    cases args with
    | nil => cases supplied
    | cons arg args =>
      unfold Parameter.supply at supplied
      split at supplied
      · exact ih (always _) supplied
      · cases supplied

theorem supply_kind {α : Type} {params : List Parameter} {f : Function params α}
    {args : List Value} {e : Error} (refused : supply params f args = .error e) :
    e.fault.kind ≠ .internal := by
  induction params generalizing args with
  | nil => cases refused
  | cons p params ih =>
    cases args with
    | nil =>
      cases refused
      exact nofun
    | cons arg args =>
      unfold supply at refused
      split at refused
      · exact ih refused
      · rename_i error
        cases refused
        exact convert_kind error

end Parameter

open Parameter (Function Always)

variable {params : List Parameter}

theorem fixed_orderly {f : Function params (Except Error Reply)}
    (always : Always Orderly params f) (args : List Value) : Orderly (fixed params f args) := by
  unfold fixed
  split
  · split
    · rename_i supplied
      exact always.supply supplied
    · rename_i refused
      exact Parameter.supply_kind refused
  · exact nofun

theorem variadic_orderly {arity : Arity} {rest : Elements}
    {f : Function params (List rest.Denote → Except Error Reply)}
    (always : Always (fun g => ∀ xs, Orderly (g xs)) params f) (args : List Value) :
    Orderly (variadic arity params rest f args) := by
  unfold variadic
  split
  · rename_i refused
    exact (Arity.validate_raised refused).kind
  split
  · exact nofun
  split
  · rename_i refused
    exact Parameter.supply_kind refused
  rename_i supplied
  split
  · rename_i refused
    exact Elements.convert_kind refused
  · exact always.supply supplied _

/-- A native that replies with a computed value is orderly if the computation is. -/
theorem replies_orderly {α : Type} {x : Except Error α} {k : α → Value}
    (fails : ∀ {e}, x = .error e → e.fault.kind ≠ .internal) :
    Orderly (x >>= fun a => replyValue (k a)) := by
  cases x with
  | ok a => exact trivial
  | error e => exact fails rfl

namespace Library

theorem divide_kind {x y : Float} {e : Error} (failed : divide x y = .error e) :
    e.fault.kind ≠ .internal := by
  unfold divide at failed
  split at failed
  · cases failed
    exact nofun
  · cases failed

theorem foldlM_divide_kind {x : Float} {xs : List Float} {e : Error}
    (failed : xs.foldlM divide x = .error e) : e.fault.kind ≠ .internal := by
  induction xs generalizing x with
  | nil => cases failed
  | cons y xs ih =>
    rw [List.foldlM_cons] at failed
    obtain failed | ⟨z, failed⟩ := Error.of_bind failed
    · exact divide_kind failed
    · exact ih failed

theorem quotient_kind {x : Float} {xs : List Float} {e : Error}
    (failed : quotient x xs = .error e) : e.fault.kind ≠ .internal := by
  unfold quotient at failed
  split at failed
  · exact divide_kind failed
  · exact foldlM_divide_kind failed

theorem allEqual_kind {v : Value} {vs : List Value} {e : Error}
    (failed : allEqual v vs = .error e) : e.fault.kind ≠ .internal := by
  induction vs generalizing v with
  | nil => cases failed
  | cons u vs ih =>
    unfold allEqual at failed
    split at failed
    · exact ih failed
    split at failed
    · split at failed
      · exact ih failed
      · cases failed
    · cases failed
      exact nofun

theorem cons_kind {v vs : Value} {e : Error} (failed : Library.cons v vs = .error e) :
    e.fault.kind ≠ .internal := by
  unfold Library.cons at failed
  split at failed
  · cases failed
  · cases failed
    exact nofun

theorem nth_kind {x : Float} {vs : List Value} {e : Error} (failed : Library.nth x vs = .error e) :
    e.fault.kind ≠ .internal := by
  unfold Library.nth at failed
  split at failed
  · cases failed
    exact nofun
  split at failed
  · cases failed
    exact nofun
  split at failed
  · cases failed
  · cases failed
    exact nofun

theorem call_orderly (args : List Value) : Orderly (Library.call args) := by
  unfold Library.call
  split
  · exact nofun
  · exact trivial
  · exact nofun

end Library

namespace Primitive

open Library

theorem body_orderly (p : Primitive) (args : List Value) : Orderly (p.body args) := by
  cases p with
  | divide =>
    unfold body
    refine variadic_orderly ?_ args
    exact fun x xs => replies_orderly quotient_kind
  | equal =>
    unfold body
    refine variadic_orderly ?_ args
    exact fun v vs => replies_orderly allEqual_kind
  | cons =>
    refine fixed_orderly ?_ args
    exact fun v vs => replies_orderly cons_kind
  | nth =>
    refine fixed_orderly ?_ args
    exact fun x vs => replies_orderly nth_kind
  | list => exact trivial
  | call => exact call_orderly args
  | error =>
    unfold body
    refine variadic_orderly ?_ args
    exact fun vs => nofun
  | add | multiply =>
    unfold body
    refine variadic_orderly ?_ args
    exact fun _ => trivial
  | subtract | greater | less | atLeast | atMost =>
    unfold body
    refine variadic_orderly ?_ args
    exact fun _ _ => trivial
  | not | car | cdr | length | isNull =>
    refine fixed_orderly ?_ args
    exact fun _ => trivial
  | apply =>
    refine fixed_orderly ?_ args
    exact fun _ _ => trivial

/-- A native of the library never answers with a stream and never fails with an internal error. -/
theorem run_orderly (p : Primitive) (args : List Value) : Orderly (p.run args) := by
  unfold run
  cases valid : p.arity.validate args.length with
  | error e => exact (Arity.validate_raised valid).kind
  | ok _ => exact p.body_orderly args

end Primitive

end CooperativeLisp

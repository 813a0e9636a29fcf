import CooperativeLisp.Fault

/-!
How many arguments a callable accepts.
-/

namespace CooperativeLisp

/-- The accepted numbers of arguments. -/
inductive Arity where
  | exact (n : Nat)
  | atLeast (n : Nat)
  | any
deriving DecidableEq, Repr

namespace Arity

/-- Whether so many arguments are accepted. -/
def Admits : Arity → Nat → Prop
  | exact n, count => count = n
  | atLeast n, count => n ≤ count
  | any, _ => True

instance (a : Arity) (count : Nat) : Decidable (a.Admits count) := by
  cases a <;> unfold Admits <;> infer_instance

/-- The number a failed check names as expected. -/
def bound : Arity → Nat
  | exact n => n
  | atLeast n => n
  | any => 0

/-- Fails unless so many arguments are accepted. -/
def validate (a : Arity) (count : Nat) : Except Error Unit :=
  if a.Admits count then .ok () else .error (Fault.arity a.bound count)

theorem validate_eq_ok_iff {a : Arity} {count : Nat} :
    a.validate count = .ok () ↔ a.Admits count := by
  unfold validate
  split <;> simp_all

/-- The tagged text of an arity. -/
def tagged : Arity → String
  | exact n => "Exact(" ++ toString n ++ ")"
  | atLeast n => "AtLeast(" ++ toString n ++ ")"
  | any => "Any"

end Arity

end CooperativeLisp

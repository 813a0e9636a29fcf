import CooperativeLisp.Value.Basic

/-!
Equality of values. Numbers are compared as IEEE numbers, natives, forms and expanders by kind and
name, closures by identity, and the nil marker equals the empty list at any depth.
-/

namespace CooperativeLisp

/-- Callables with names are equal when kind and name are; closures when they are the same one. -/
def Callable.same : Callable → Callable → Bool
  | .native a, .native b => a.name == b.name
  | .form a, .form b => a.name == b.name
  | .expander a, .expander b => a.name == b.name
  | .closure a, .closure b => a.identity == b.identity
  | _, _ => false

instance : BEq Callable := ⟨Callable.same⟩

namespace Value

mutual

/-- Equality of values. -/
def same : Value → Value → Bool
  | number a, number b => a == b
  | symbol a, symbol b => a == b
  | truth, truth => true
  | list as, list bs => sameAll as bs
  | callable a, callable b => a == b
  | nil, v => v.isNil
  | list as, nil => as.isEmpty
  | _, _ => false

/-- Equality of lists, element by element. -/
def sameAll : List Value → List Value → Bool
  | [], [] => true
  | a :: as, b :: bs => same a b && sameAll as bs
  | _, _ => false

end

instance : BEq Value := ⟨same⟩

end Value

end CooperativeLisp

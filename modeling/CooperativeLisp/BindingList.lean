import CooperativeLisp.Fault

/-!
Binding lists, as binding forms and declarations take them: each item is a name, a name in
brackets, or a name with the expression of its value.
-/

namespace CooperativeLisp

/-- A name in its place, which may be a marker so that binding it reports a reserved name, and the
expression of its value. -/
structure Binding where
  name : Value
  init : Value

namespace Binding

/-- Whether a value may stand where a name is expected: symbols and the two markers. -/
def isNameLike : Value → Bool
  | .symbol _ | .nil | .truth => true
  | _ => false

/-- Reads one item; a name without an expression is bound to nil. -/
def read (item : Value) : Except Error Binding :=
  let malformed : Except Error Binding := .error (Fault.evaluation (.malformedBinding item))
  match item with
  | .symbol _ => .ok ⟨item, .nil⟩
  | .list [name] => if isNameLike name then .ok ⟨name, .nil⟩ else malformed
  | .list [name, init] => if isNameLike name then .ok ⟨name, init⟩ else malformed
  | _ => malformed

/-- Reads a binding list; the first malformed item is at fault. -/
def readAll (v : Value) : Except Error (List Binding) :=
  match v.toList? with
  | some items => items.mapM read
  | none => .error (Fault.type (.bindingList v))

/-- The binding as an item of a binding list. -/
def toValue (b : Binding) : Value :=
  .list [b.name, b.init]

end Binding

end CooperativeLisp

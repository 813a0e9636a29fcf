import CooperativeLisp.Arity
import CooperativeLisp.BindingList
import CooperativeLisp.Symbol

/-!
The expanders of the standard library: binding forms and short-circuit connectives. An expansion
holds the forms it builds on as values and not by name, so it means the same wherever it stands,
and it hands the running closure through under the name that its own functions would hide.
-/

namespace CooperativeLisp.Library

/-- An application. -/
def apply (operator : Value) (operands : List Value) : Value :=
  .list (operator :: operands)

def lambda (params : List Value) (body : List Value) : Value :=
  apply (.form .lambda) (.list params :: body)

/-- The symbol of the running closure. -/
def self : Value :=
  .symbol Symbol.selfName

/-- Binds all names at once: a function of the names applied to the expressions. -/
def parallelLet (bindings : List Binding) (body : List Value) : Value :=
  apply (lambda (self :: bindings.map (·.name)) body) (self :: bindings.map (·.init))

/-- A binding form with these bindings, not yet expanded. -/
def letForm (bindings : List Binding) (body : List Value) : Value :=
  apply (.expander .parallelLet) (.list (bindings.map Binding.toValue) :: body)

/-- Binds one name after the other, each in the scope of those before it. -/
def serialLet (bindings : List Binding) (body : List Value) : Value :=
  match bindings.reverse with
  | [] => letForm [] body
  | last :: before => before.foldl (fun inner b => letForm [b] [inner]) (letForm [last] body)

/-- The value of the last operand, unless an operand before it is nil. -/
def conjunction (operands : List Value) : Value :=
  match operands.reverse with
  | [] => .truth
  | last :: before =>
    before.foldl (fun rest operand => apply (.form .conditional) [operand, rest, .nil]) last

/-- The value of `operand` if it is true, and else that of `rest`, which a function of its own
keeps out of the scope of the names used here. -/
def choice (operand rest : Value) : Value :=
  let test := apply (.form .conditional) [.symbol "v", .symbol "v", .list [.symbol "k", self]]
  apply (lambda [self, .symbol "v", .symbol "k"] [test]) [self, operand, lambda [self] [rest]]

/-- The value of the first operand that is true, or else of the last one. -/
def disjunction (operands : List Value) : Value :=
  match operands.reverse with
  | [] => .nil
  | last :: before => before.foldl (fun rest operand => choice operand rest) last

end CooperativeLisp.Library

namespace CooperativeLisp.Expander

/-- How many operands an expander of the library accepts; a host checks its own. -/
def arity : Expander → Arity
  | parallelLet | serialLet => .atLeast 1
  | conjunction | disjunction | host _ => .any

/-- The replacement of an application by an expander of the library, which depends on the operands
alone; a host's expanders have none here. -/
def expand? : Expander → List Value → Option (Except Error Value)
  | parallelLet, bindings :: body => some do
      return Library.parallelLet (← Binding.readAll bindings) body
  | serialLet, bindings :: body => some do
      return Library.serialLet (← Binding.readAll bindings) body
  | parallelLet, [] | serialLet, [] => some (.error (Fault.arity 1 0))
  | conjunction, operands => some (.ok (Library.conjunction operands))
  | disjunction, operands => some (.ok (Library.disjunction operands))
  | host _, _ => none

end CooperativeLisp.Expander

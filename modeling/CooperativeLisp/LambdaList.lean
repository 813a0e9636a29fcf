import CooperativeLisp.Fault
import CooperativeLisp.Symbol

/-!
Parameter lists of closures: distinct symbols that are not markers, then perhaps `&rest` with at
most one more name for the arguments behind the parameters.
-/

namespace CooperativeLisp

/-- The parameters of a closure. -/
structure LambdaList where
  params : List String
  rest : Rest
deriving DecidableEq, Repr

namespace LambdaList

/-- The name in a parameter's place; a marker there is reserved, and `otherwise` tells what is
wrong with a value that is no symbol at all. -/
def nameOf (otherwise : Value → TypeFault) : Value → Except Error String
  | .symbol name => .ok name
  | .nil => .error (Fault.reserved Symbol.nilName)
  | .truth => .error (Fault.reserved Symbol.truthName)
  | v => .error (Fault.type (otherwise v))

/-- Reads what follows the rest marker. -/
def readRest (seen : List String) : List Value → Except Error Rest
  | [] => .ok .discarded
  | v :: more => do
    let name ← nameOf .restName v
    if Symbol.isReserved name then
      throw (.ofFault (.reserved name))
    match more with
    | extra :: _ => throw (.ofFault (.evaluation (.parameterAfterRest extra)))
    | [] =>
      if seen.contains name then
        throw (.ofFault (.evaluation (.duplicateParameter name)))
      return .named name

/-- Reads the parameters behind those already seen, which are kept latest first. -/
def readAfter (seen : List String) : List Value → Except Error LambdaList
  | [] => .ok ⟨seen.reverse, .ignored⟩
  | v :: more => do
    let name ← nameOf .parameter v
    if name == Symbol.restMarker then
      return ⟨seen.reverse, ← readRest seen more⟩
    if Symbol.isReserved name then
      throw (.ofFault (.reserved name))
    if seen.contains name then
      throw (.ofFault (.evaluation (.duplicateParameter name)))
    readAfter (name :: seen) more

/-- Reads a parameter list. -/
def read (v : Value) : Except Error LambdaList :=
  match v.toList? with
  | some items => readAfter [] items
  | none => .error (Fault.type (.parameterList v))

end LambdaList

/-- Makes a closure from a parameter list and a body. -/
def Closure.make (identity : Nat) (params body : Value) (env : Environment) :
    Except Error Closure :=
  match LambdaList.read params with
  | .ok ⟨params, rest⟩ => .ok { identity, params, rest, body, env }
  | .error e => .error e

/-- What a call binds in the scope of the body: the closure itself, then the parameters by
position, with nil for missing arguments, then the arguments behind them. A later entry wins. -/
def Closure.arguments (c : Closure) (args : List Value) : List (String × Value) :=
  (Symbol.selfName, .callable (.closure c)) ::
    c.params.zip (args ++ List.replicate (c.params.length - args.length) .nil) ++
    match c.rest.name? with
    | some name => [(name, .list (args.drop c.params.length))]
    | none => []

end CooperativeLisp

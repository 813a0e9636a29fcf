import CooperativeLisp.Arity
import CooperativeLisp.World

/-!
Natives with typed parameters. A signature says what each argument must be; the function behind it
is run on converted arguments only. The number of arguments is checked first, then each argument
from the left, then the arguments behind the last parameter.
-/

namespace CooperativeLisp

/-- What the elements of a list must be. -/
inductive Elements where
  | anything
  | numbers
deriving DecidableEq, Repr

/-- The elements as the function receives them. -/
abbrev Elements.Denote : Elements → Type
  | anything => Value
  | numbers => Float

/-- An element as a number. What is none would be passed as one that is not a number. -/
def Elements.asNumber (v : Value) : Float :=
  v.number?.getD (0.0 / 0.0)

/-- The numbers of a list; the first element that is none is at fault. -/
def Elements.numbersOf (vs : List Value) : Except Error (List Float) :=
  match vs.find? (·.number?.isNone) with
  | some v => .error (Fault.type (.expectedNumber v))
  | none => .ok (vs.map asNumber)

/-- Converts all elements of a list. -/
def Elements.convert : (e : Elements) → List Value → Except Error (List e.Denote)
  | anything, vs => .ok vs
  | numbers, vs => numbersOf vs

/-- What one argument must be. -/
inductive Parameter where
  | anything
  | number
  | callable
  | list (elements : Elements)
deriving DecidableEq, Repr

namespace Parameter

/-- The argument as the function receives it. -/
abbrev Denote : Parameter → Type
  | anything => Value
  | number => Float
  | callable => Callable
  | list elements => List elements.Denote

/-- Converts one argument. -/
def convert : (p : Parameter) → Value → Except Error p.Denote
  | anything, v => .ok v
  | number, v => match v.number? with
    | some x => .ok x
    | none => .error (Fault.type (.notANumber v))
  | callable, v => match v.callable? with
    | some c => .ok c
    | none => .error (Fault.illegalCall v.display)
  | list elements, v => match v.toList? with
    | some items => elements.convert items
    | none => .error (Fault.type (.expectedList v.kind))

/-- Functions of parameters one after the other. -/
abbrev Function (params : List Parameter) (α : Type) : Type :=
  params.foldr (fun p β => p.Denote → β) α

/-- Hands the converted arguments over one by one; with the result come the arguments left over. -/
def supply {α : Type} : (params : List Parameter) → Function params α → List Value →
    Except Error (α × List Value)
  | [], f, args => .ok (f, args)
  | _ :: _, _, [] => .error (Fault.arity 1 0)
  | p :: params, f, arg :: args =>
    match p.convert arg with
    | .ok x => supply params (f x) args
    | .error e => .error e

end Parameter

open Parameter (Function supply)

variable {m : Type → Type} [Monad m] [MonadExceptOf Error m]

/-- The native of a function with exactly these parameters. -/
def fixed (params : List Parameter) (f : Function params (m Reply)) (args : List Value) :
    m Reply :=
  if args.length = params.length then
    match supply params f args with
    | .ok (run, _) => run
    | .error e => throw e
  else throw (.ofFault (.arity params.length args.length))

/-- The native of a function that receives the arguments behind its parameters as a list. The
declared arity is checked before the number of parameters. -/
def variadic (arity : Arity) (params : List Parameter) (rest : Elements)
    (f : Function params (List rest.Denote → m Reply)) (args : List Value) : m Reply :=
  match arity.validate args.length with
  | .error e => throw e
  | .ok () =>
    if args.length < params.length then
      throw (.ofFault (.arity params.length args.length))
    else match supply params f args with
      | .error e => throw e
      | .ok (g, left) =>
        match rest.convert left with
        | .error e => throw e
        | .ok xs => g xs

/-- Answers with a value. -/
def Reply.value (v : Value) : Reply :=
  .answer (.value v)

/-- Answers with a value from within a computation. -/
def replyValue (v : Value) : m Reply :=
  pure (.value v)

end CooperativeLisp

import CooperativeLisp.Value.Printer

/-!
What can go wrong. A fault names its cause; the wording of every message is fixed here. An error is
a fault together with the expressions that were being evaluated, innermost first.
-/

namespace CooperativeLisp

/-- Why a text was not read. -/
inductive ReadFault where
  | tooDeep (limit : Nat)
  | endOfInput
  | invalidAt (position : Nat) (near : String)
  | leftover (text : String)
  | invalidDocument
  | documentObject
  | invalidSymbol (text : String)
  | other (text : String)
deriving DecidableEq, Repr

/-- Why an evaluation failed; `signalled` is raised by programs and hosts. -/
inductive EvaluationFault where
  | malformedBinding (binding : Value)
  | duplicateParameter (name : String)
  | parameterAfterRest (parameter : Value)
  | signalled (text : String)

/-- Which value had the wrong kind. -/
inductive TypeFault where
  | notANumber (v : Value)
  | expectedNumber (v : Value)
  | expectedList (kind : Kind)
  | incomparable (a b : Kind)
  | consOnto (kind : Kind)
  | fractionalIndex (index : Float)
  | bindingList (v : Value)
  | parameterList (v : Value)
  | parameter (v : Value)
  | restName (v : Value)
  | exported (v : Value)
  | unwritable (v : Value)
  | other (text : String)

/-- Which invariant of the engine was broken by a stream, or which protocol by its holder. -/
inductive InternalFault where
  | underflow (argc height : Nat)
  | noValue
  | surplus (height : Nat)
  | resumedAfterCompletion
  | other (text : String)
deriving DecidableEq, Repr

/-- The cause of a failure. -/
inductive Fault where
  | parse (cause : ReadFault)
  | evaluation (cause : EvaluationFault)
  | type (cause : TypeFault)
  | unbound (name : String)
  | illegalCall (what : String)
  | arity (expected got : Nat)
  | indexOutOfBounds (index : Float) (length : Nat)
  | divisionByZero
  | alreadyDefined (name : String)
  | reserved (name : String)
  | internal (cause : InternalFault)

/-- The kinds of failure that hosts tell apart. -/
inductive FaultKind where
  | parse | evaluation | type | unbound | illegalCall | arity | indexOutOfBounds | divisionByZero
  | alreadyDefined | reserved | internal
deriving DecidableEq, Repr

def ReadFault.message : ReadFault → String
  | tooDeep limit => "Expression too deeply nested (max depth: " ++ toString limit ++ ")"
  | endOfInput => "Unexpected end of input"
  | invalidAt position near =>
    "Invalid syntax at position " ++ toString position ++ " near '" ++ near ++ "'"
  | leftover text => "Unexpected remaining input: '" ++ text ++ "'"
  | invalidDocument => "Invalid JSON"
  | documentObject => "JSON objects are not supported, write operations as arrays"
  | invalidSymbol text => "Invalid symbol: \"" ++ text ++ "\""
  | other text => text

def EvaluationFault.message : EvaluationFault → String
  | malformedBinding binding => "malformed binding " ++ binding.display
  | duplicateParameter name => "Duplicate parameter name: " ++ name
  | parameterAfterRest parameter =>
    "unexpected parameter " ++ parameter.display ++ " after rest parameter"
  | signalled text => text

def TypeFault.message : TypeFault → String
  | notANumber v => "not a number: " ++ v.display ++ " is a " ++ v.kind.word
  | expectedNumber v => "expected number, got " ++ v.display ++ " (" ++ v.kind.word ++ ")"
  | expectedList kind => "expected list, got " ++ kind.word
  | incomparable a b => "cannot compare " ++ a.word ++ " with " ++ b.word
  | consOnto kind => "cons requires a list as second argument, got " ++ kind.word
  | fractionalIndex index => "list index must be a whole number, got " ++ Number.text index
  | bindingList v => "expected a binding list, got " ++ v.display
  | parameterList v => "lambda parameters must be a list, got " ++ v.display
  | parameter v => "lambda parameters must be symbols, got " ++ v.display
  | restName v => "&rest must be followed by a parameter name, got " ++ v.display
  | exported v => "cannot export " ++ v.display
  | unwritable v => v.display ++ " has no JSON representation"
  | other text => text

def InternalFault.message : InternalFault → String
  | underflow argc height =>
    "call frame expects " ++ toString argc ++ " arguments but the stack holds " ++ toString height
  | noValue => "stream finished without a value"
  | surplus height => "stream finished with " ++ toString height ++ " values on the stack"
  | resumedAfterCompletion => "task resumed after completion"
  | other text => text

namespace Fault

def kind : Fault → FaultKind
  | parse _ => .parse
  | evaluation _ => .evaluation
  | type _ => .type
  | unbound _ => .unbound
  | illegalCall _ => .illegalCall
  | arity _ _ => .arity
  | indexOutOfBounds _ _ => .indexOutOfBounds
  | divisionByZero => .divisionByZero
  | alreadyDefined _ => .alreadyDefined
  | reserved _ => .reserved
  | internal _ => .internal

def message : Fault → String
  | parse cause => "ParseError: " ++ cause.message
  | evaluation cause => "EvaluationError: " ++ cause.message
  | type cause => "Type error: " ++ cause.message
  | unbound name => "Unknown symbol: \"" ++ name ++ "\""
  | illegalCall what => "Illegal function call: " ++ what ++ " is not callable"
  | arity expected got =>
    "ArityError: function expected " ++ toString expected ++ " arguments but got " ++ toString got
  | indexOutOfBounds index length =>
    "Index " ++ Number.text index ++ " out of bounds for list of length " ++ toString length
  | divisionByZero => "Illegal division by zero"
  | alreadyDefined name => "Symbol \"" ++ name ++ "\" already defined"
  | reserved name => "Reserved symbol \"" ++ name ++ "\" cannot be bound"
  | internal cause => "Internal error: " ++ cause.message

end Fault

/-- A failure with the expressions it came from, innermost first. -/
structure Error where
  fault : Fault
  backtrace : List Value

namespace Error

/-- A failure whose origin is not known yet. -/
def ofFault (fault : Fault) : Error := ⟨fault, []⟩

instance : Coe Fault Error := ⟨ofFault⟩

/-- A failure raised by a program or a host in its own words. -/
def signalled (text : String) : Error :=
  Fault.evaluation (.signalled text)

def message (e : Error) : String :=
  e.fault.message

/-- Records the expression the failure came from, behind those already known. -/
def withOrigin (e : Error) (origin : Value) : Error :=
  { e with backtrace := e.backtrace ++ [origin] }

/-- Adds the trace of a run and keeps the first `cap` expressions. -/
def withTrace (e : Error) (trace : List Value) (cap : Nat) : Error :=
  { e with backtrace := (e.backtrace ++ trace).take cap }

/-- The message, followed by the backtrace with an expression on each line. -/
def report (e : Error) : String :=
  match e.backtrace with
  | [] => e.message
  | trace => trace.foldl (fun shown v => shown ++ "\n  " ++ v.display) (e.message ++ " at")

end Error

end CooperativeLisp

import CooperativeLisp.Signature

/-!
The natives of the standard library: arithmetic, comparison, lists and calling. None coerces its
arguments; the nil marker serves as the empty list throughout.
-/

namespace CooperativeLisp.Library

/-- The sum starts from negative zero, the neutral element of addition. -/
def sum (xs : List Float) : Float :=
  xs.foldl (· + ·) (-0.0)

def product (xs : List Float) : Float :=
  xs.foldl (· * ·) 1.0

/-- A single number is negated. -/
def difference (first : Float) (rest : List Float) : Float :=
  if rest.isEmpty then -first else rest.foldl (· - ·) first

/-- Division fails on a divisor that equals zero. -/
def divide (dividend divisor : Float) : Except Error Float :=
  if divisor == 0.0 then .error Fault.divisionByZero else .ok (dividend / divisor)

/-- A single number is inverted. -/
def quotient (first : Float) (rest : List Float) : Except Error Float :=
  if rest.isEmpty then divide 1.0 first else rest.foldlM divide first

/-- Whether every number stands in the relation to the one after it. -/
def isChain (related : Float → Float → Bool) : Float → List Float → Bool
  | _, [] => true
  | previous, current :: rest => related previous current && isChain related current rest

/-- Chained equality of numbers; any two nils are equal as well. The first unequal pair decides,
unless a pair before it cannot be compared. -/
def allEqual : Value → List Value → Except Error Bool
  | _, [] => .ok true
  | previous, current :: rest =>
    if previous.isNil && current.isNil then allEqual current rest
    else match previous.number?, current.number? with
      | some x, some y => if x == y then allEqual current rest else .ok false
      | _, _ => .error (Fault.type (.incomparable previous.kind current.kind))

/-- Puts a value in front of a list. -/
def cons (first rest : Value) : Except Error Value :=
  match rest.toList? with
  | some tail => .ok (.list (first :: tail))
  | none => .error (Fault.type (.consOnto rest.kind))

/-- The element at an index that counts from zero. -/
def nth (index : Float) (items : List Value) : Except Error Value :=
  match wholeNumber? index with
  | none => .error (Fault.type (.fractionalIndex index))
  | some i =>
    if i < 0 then .error (Fault.indexOutOfBounds index items.length)
    else match items[i.toNat]? with
      | some v => .ok v
      | none => .error (Fault.indexOutOfBounds index items.length)

/-- Raises the texts of the arguments as a failure. -/
def raise (args : List Value) : Error :=
  .signalled (if args.isEmpty then "Error" else Value.displayAll args)

/-- Invokes the first argument with the others. -/
def call : List Value → Except Error Reply
  | [] => .error (Fault.arity 1 0)
  | .callable c :: args => .ok (.invoke c args)
  | v :: _ => .error (Fault.illegalCall v.display)

end CooperativeLisp.Library

namespace CooperativeLisp

namespace Primitive

/-- How many arguments a native accepts; checked before anything else. -/
def arity : Primitive → Arity
  | add | multiply | list | error => .any
  | subtract | divide | call => .atLeast 1
  | equal | greater | less | atLeast | atMost => .atLeast 2
  | not | car | cdr | length | isNull => .exact 1
  | cons | nth | apply => .exact 2

open Library in
/-- The native behind the check of its arity. -/
def body : Primitive → List Value → Except Error Reply
  | add => variadic .any [] .numbers fun xs => replyValue (.number (sum xs))
  | subtract => variadic .any [.number] .numbers fun x xs => replyValue (.number (difference x xs))
  | multiply => variadic .any [] .numbers fun xs => replyValue (.number (product xs))
  | divide => variadic .any [.number] .numbers fun x xs => do
      replyValue (.number (← quotient x xs))
  | equal => variadic .any [.anything] .anything fun v vs => do
      replyValue (.ofBool (← allEqual v vs))
  | greater => variadic .any [.number] .numbers fun x xs =>
      replyValue (.ofBool (isChain (fun a b => b < a) x xs))
  | less => variadic .any [.number] .numbers fun x xs =>
      replyValue (.ofBool (isChain (fun a b => a < b) x xs))
  | atLeast => variadic .any [.number] .numbers fun x xs =>
      replyValue (.ofBool (isChain (fun a b => b ≤ a) x xs))
  | atMost => variadic .any [.number] .numbers fun x xs =>
      replyValue (.ofBool (isChain (fun a b => a ≤ b) x xs))
  | not => fixed [.anything] fun v => replyValue (.ofBool v.isNil)
  | cons => fixed [.anything, .anything] fun v vs => do replyValue (← Library.cons v vs)
  | car => fixed [.list .anything] fun vs => replyValue (vs.headD .nil)
  | cdr => fixed [.list .anything] fun vs => replyValue (.list vs.tail)
  | list => fun args => replyValue (.list args)
  | length => fixed [.list .anything] fun vs => replyValue (.ofNat vs.length)
  | nth => fixed [.number, .list .anything] fun x vs => do replyValue (← Library.nth x vs)
  | isNull => fixed [.anything] fun v => replyValue (.ofBool v.isNil)
  | call => Library.call
  | apply => fixed [.callable, .list .anything] fun c vs => .ok (.invoke c vs)
  | error => variadic .any [] .anything fun vs => .error (raise vs)

/-- What a native of the library answers to evaluated arguments. -/
def run (p : Primitive) (args : List Value) : Except Error Reply := do
  p.arity.validate args.length
  p.body args

end Primitive

end CooperativeLisp

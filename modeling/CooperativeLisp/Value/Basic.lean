import CooperativeLisp.Scope.Environment

/-!
Values of the language. One type serves as the expression tree that programs are compiled from and
as the result of running them. Callables come in four kinds: natives and closures run with
evaluated arguments, forms and expanders work on the unevaluated arguments before anything runs.
-/

namespace CooperativeLisp

/-- The natives of the standard library. -/
inductive Primitive where
  | add | subtract | multiply | divide
  | equal | greater | less | atLeast | atMost | not
  | cons | car | cdr | list | length | nth | isNull
  | call | apply | error
deriving DecidableEq, Repr

/-- An ordinary function of the library or of the host, where it is known by name. -/
inductive Native where
  | primitive (p : Primitive)
  | host (name : String)
deriving DecidableEq, Repr

/-- A form decides itself how its operands are compiled. `exports` keeps the bound on backtraces of
the interpreter that installed it. -/
inductive Form where
  | quote | lambda | conditional | sequence
  | exports (maxBacktrace : Nat)
  | host (name : String)
deriving DecidableEq, Repr

/-- An expander replaces its application by another expression. -/
inductive Expander where
  | parallelLet | serialLet | conjunction | disjunction
  | host (name : String)
deriving DecidableEq, Repr

/-- What happens to the arguments behind the last parameter. Without a name they are dropped,
whether the rest marker stands at the end of the parameters or not. -/
inductive Rest where
  /-- no rest marker -/
  | ignored
  /-- a rest marker without a name -/
  | discarded
  /-- the arguments are kept as a list -/
  | named (name : String)
deriving DecidableEq, Repr

mutual

/-- A value, which is also an expression. The marker `nil` and the empty list are two values that
programs cannot tell apart. -/
inductive Value where
  | number (x : Float)
  | symbol (name : String)
  | nil
  | truth
  | list (items : List Value)
  | callable (c : Callable)

/-- A callable value. -/
inductive Callable where
  | native (n : Native)
  | form (f : Form)
  | expander (r : Expander)
  | closure (c : Closure)

/-- A function of the program: parameters, unevaluated body and the environment it was made in.
Each evaluation of a `lambda` makes a closure with an identity of its own. -/
structure Closure where
  identity : Nat
  params : List String
  rest : Rest
  body : Value
  env : Environment

end

instance : Inhabited Value := ⟨.nil⟩

namespace Primitive

/-- The name under which the library binds a native. -/
def name : Primitive → String
  | add => "+" | subtract => "-" | multiply => "*" | divide => "/"
  | equal => "=" | greater => ">" | less => "<" | atLeast => ">=" | atMost => "<="
  | not => "not"
  | cons => "cons" | car => "car" | cdr => "cdr" | list => "list"
  | length => "length" | nth => "nth" | isNull => "null?"
  | call => "call" | apply => "apply" | error => "error"

end Primitive

def Native.name : Native → String
  | primitive p => p.name
  | host name => name

def Form.name : Form → String
  | quote => "quote"
  | lambda => "lambda"
  | conditional => "if"
  | sequence => "progn"
  | exports _ => "export"
  | host name => name

def Expander.name : Expander → String
  | parallelLet => "let"
  | serialLet => "let*"
  | conjunction => "and"
  | disjunction => "or"
  | host name => name

/-- The name of the rest parameter, if the arguments behind the last parameter are kept. -/
def Rest.name? : Rest → Option String
  | named name => some name
  | _ => none

/-- The kinds of value that messages tell apart. -/
inductive Kind where
  | number | symbol | nil | truth | list | function
deriving DecidableEq, Repr

/-- The word for a kind in messages. -/
def Kind.word : Kind → String
  | number => "number"
  | symbol => "symbol"
  | nil => "nil"
  | truth => "t"
  | list => "list"
  | function => "function"

namespace Value

def kind : Value → Kind
  | number _ => .number
  | symbol _ => .symbol
  | nil => .nil
  | truth => .truth
  | list _ => .list
  | callable _ => .function

/-- The nil marker and the empty list count as nil. -/
def isNil : Value → Bool
  | nil => true
  | list items => items.isEmpty
  | _ => false

/-- Every value except nil counts as true. -/
def isTrue (v : Value) : Bool :=
  !v.isNil

/-- The elements of a list; the nil marker reads as the empty list. -/
def toList? : Value → Option (List Value)
  | list items => some items
  | nil => some []
  | _ => none

/-- The number that a value is. -/
def number? : Value → Option Float
  | number x => some x
  | _ => none

/-- The callable that a value is. -/
def callable? : Value → Option Callable
  | callable c => some c
  | _ => none

/-- A condition as a marker. -/
def ofBool (b : Bool) : Value :=
  if b then truth else nil

/-- A count as a number. -/
def ofNat (n : Nat) : Value :=
  number (Float.ofNat n)

/-- The name of the callable, for all but closures. -/
def callableName? : Value → Option String
  | callable (.native n) => some n.name
  | callable (.form f) => some f.name
  | callable (.expander r) => some r.name
  | _ => none

def primitive (p : Primitive) : Value :=
  callable (.native (.primitive p))

def form (f : Form) : Value :=
  callable (.form f)

def expander (r : Expander) : Value :=
  callable (.expander r)

mutual

/-- How deep lists are nested: an atom has depth zero, a list one more than its deepest element. -/
def depth : Value → Nat
  | list items => deepest 0 items + 1
  | _ => 0

/-- The greatest depth among some values, if it is above `bound`, and else `bound`. -/
def deepest (bound : Nat) : List Value → Nat
  | [] => bound
  | v :: vs => deepest (max bound v.depth) vs

end

theorem isNil_iff_toList? {v : Value} : v.isNil = true ↔ v.toList? = some [] := by
  cases v <;> simp [isNil, toList?]

end Value

end CooperativeLisp

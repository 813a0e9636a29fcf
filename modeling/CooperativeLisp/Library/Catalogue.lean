import CooperativeLisp.Library.Natives
import CooperativeLisp.Library.Expansion
import CooperativeLisp.Scope.Table

/-!
The standard library: every entry with its arity, and the table that seeds a root with them.
-/

namespace CooperativeLisp

namespace Form

/-- How many operands a form of the library accepts; a host checks its own. -/
def arity : Form → Arity
  | quote | exports _ => .exact 1
  | lambda => .atLeast 1
  | conditional => .atLeast 2
  | sequence | host _ => .any

end Form

namespace Library

/-- An entry of the library. -/
inductive Entry where
  | native (p : Primitive)
  | form (f : Form)
  | expander (r : Expander)
deriving DecidableEq, Repr

namespace Entry

def callable : Entry → Callable
  | native p => .native (.primitive p)
  | form f => .form f
  | expander r => .expander r

def name : Entry → String
  | native p => p.name
  | form f => f.name
  | expander r => r.name

def arity : Entry → Arity
  | native p => p.arity
  | form f => f.arity
  | expander r => r.arity

/-- The tagged text of what kind of callable an entry is. -/
def kindTagged : Entry → String
  | native _ => "Function(<fn>)"
  | form _ => "SpecialForm(<fn>)"
  | expander _ => "Macro(<fn>)"

end Entry

/-- Every callable of the library, grouped by what it works on. -/
def entries : List Entry :=
  [.add, .subtract, .multiply, .divide, .equal, .greater, .less, .atLeast, .atMost, .not,
    .cons, .car, .cdr, .list, .length, .nth, .isNull, .call, .apply, .error].map Entry.native ++
  [.quote, .lambda, .conditional, .sequence].map Entry.form ++
  [.parallelLet, .serialLet, .conjunction, .disjunction].map Entry.expander

/-- The standard library. The name of the running closure is nil outside of closures. -/
def table : Table :=
  Table.ofEntries (entries.map (fun e => (e.name, .callable e.callable)) ++
    [(Symbol.selfName, .nil)])

end Library

end CooperativeLisp

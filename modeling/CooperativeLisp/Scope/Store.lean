import CooperativeLisp.Scope.Table
import CooperativeLisp.Fault
import CooperativeLisp.Symbol

/-!
The store of scopes. Environments are handles into it: opening a scope never copies the bindings
around it, and a look-up walks the chain of the handle outwards. At a root a name is bound only
once; a child scope may bind a name again and shadows the scopes around it.
-/

namespace CooperativeLisp

/-- What every scope binds, by its identity. -/
structure Scopes where
  tables : Array Table := #[]
deriving Inhabited

namespace Scopes

/-- What one scope binds; a scope that was never opened binds nothing. -/
def table (scopes : Scopes) (scope : ScopeId) : Table :=
  scopes.tables.getD scope ∅

/-- The value that one scope binds to a name. -/
def local? (scopes : Scopes) (scope : ScopeId) (name : String) : Option Value :=
  (scopes.table scope)[name]?

/-- Opens a root scope with the entries of a table. -/
def openRoot (scopes : Scopes) (table : Table) : Environment × Scopes :=
  (⟨scopes.tables.size, []⟩, ⟨scopes.tables.push table⟩)

/-- Opens a scope with some bindings inside an environment. -/
def openChild (scopes : Scopes) (env : Environment) (table : Table) : Environment × Scopes :=
  (⟨scopes.tables.size, env.chain⟩, ⟨scopes.tables.push table⟩)

/-- The value that the nearest scope of a chain binds to a name. -/
def find? (scopes : Scopes) (name : String) : List ScopeId → Option Value
  | [] => none
  | scope :: outer =>
    match scopes.local? scope name with
    | some v => some v
    | none => scopes.find? name outer

/-- The value of a name in an environment. -/
def get? (scopes : Scopes) (env : Environment) (name : String) : Option Value :=
  scopes.find? name env.chain

/-- The value of a name, which is unbound otherwise. -/
def lookup (scopes : Scopes) (env : Environment) (name : String) : Except Error Value :=
  match scopes.get? env name with
  | some v => .ok v
  | none => .error (Fault.unbound name)

/-- Whether the scope of an environment itself binds a name. -/
def binds (scopes : Scopes) (env : Environment) (name : String) : Bool :=
  (scopes.table env.scope).contains name

/-- Binds a name in one scope whatever it was bound to. -/
def define (scopes : Scopes) (scope : ScopeId) (name : String) (v : Value) : Scopes :=
  ⟨scopes.tables.modify scope (·.insert name v)⟩

/-- Binds a name in the scope of an environment. Markers are never bound, and a root binds a name
only once. -/
def bind (scopes : Scopes) (env : Environment) (name : String) (v : Value) :
    Except Error Scopes :=
  if Symbol.isReserved name then .error (Fault.reserved name)
  else if env.isRoot && scopes.binds env name then .error (Fault.alreadyDefined name)
  else .ok (scopes.define env.scope name v)

/-- All that is visible along a chain: an inner binding hides the outer ones of its name. -/
def visible (scopes : Scopes) (chain : List ScopeId) : Table :=
  chain.foldl (fun seen scope => Table.underlay seen (scopes.table scope)) ∅

/-- All visible bindings, in the order of their names. -/
def bindings (scopes : Scopes) (env : Environment) : List (String × Value) :=
  (scopes.visible env.chain).toList

/-- The tagged text of an environment. -/
def tagged (scopes : Scopes) (env : Environment) : String :=
  "Environment \x7b depth: " ++ toString env.depth ++ ", bindings: " ++
    toString (scopes.table env.scope).size ++ " \x7d"

end Scopes

end CooperativeLisp

/-!
Handles to lexical scopes. An environment names its own scope and the scopes around it, nearest
first; what the scopes bind is kept in the store, so every holder of a handle sees a later binding.
-/

namespace CooperativeLisp

/-- Names one scope of the store. -/
abbrev ScopeId := Nat

/-- A scope together with the chain of scopes around it, which ends at a root. -/
structure Environment where
  scope : ScopeId
  outer : List ScopeId
deriving DecidableEq, Repr, Inhabited

namespace Environment

/-- The scopes a look-up visits, nearest first. -/
def chain (env : Environment) : List ScopeId :=
  env.scope :: env.outer

/-- The environment around this one, which a root does not have. -/
def parent? (env : Environment) : Option Environment :=
  match env.outer with
  | [] => none
  | scope :: outer => some ⟨scope, outer⟩

def isRoot (env : Environment) : Bool :=
  env.outer.isEmpty

/-- The scope at the end of the chain. -/
def rootScope (env : Environment) : ScopeId :=
  env.outer.getLastD env.scope

/-- The outermost environment of the chain. -/
def root (env : Environment) : Environment :=
  ⟨env.rootScope, []⟩

/-- How many scopes stand between this one and the root. -/
def depth (env : Environment) : Nat :=
  env.outer.length

theorem root_isRoot (env : Environment) : env.root.isRoot = true := rfl

end Environment

end CooperativeLisp

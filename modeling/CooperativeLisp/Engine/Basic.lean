import CooperativeLisp.World

/-!
The engine that compiles and runs expressions. It knows the host, how much fuel is left, and how
an expression is evaluated to the end from within a compilation, which declarations need.
-/

namespace CooperativeLisp

/-- The bound on the length of a backtrace; a bound of zero counts as one. -/
abbrev BacktraceCap := Nat

/-- An engine with a bounded amount of fuel. Every loop of a compilation, of an invocation and of
a run takes at most `fuel` rounds; `evaluate` is used for expressions that are evaluated to the end
while another one is compiled. -/
structure Engine (σ : Type) where
  host : Host σ
  fuel : Nat
  evaluate : Environment → Value → BacktraceCap → Effect σ (Except Error Value)

namespace Engine

variable {σ : Type}

/-- The value of a symbol in an environment. -/
def lookup (env : Environment) (name : String) : Attempt σ Value := do
  Attempt.ofExcept ((← Attempt.scopes).lookup env name)

end Engine

end CooperativeLisp

import CooperativeLisp.Engine.Compile

/-!
Invocation of callables with evaluated arguments. A closure opens a scope for its arguments and
answers with its compiled body; a native answers by itself or names a callable to be invoked in
its place.
-/

namespace CooperativeLisp.Engine

variable {σ : Type}

/-- What a callable answers to its arguments. Forms and expanders exist only before the run and
cannot be invoked. -/
def reply (g : Engine σ) (c : Callable) (args : List Value) : Attempt σ Reply :=
  match c with
  | .closure f => do
    let scope ← Attempt.openChild f.env (Table.ofEntries (f.arguments args))
    return .answer (.compile scope f.body)
  | .native (.primitive p) => Attempt.ofExcept (p.run args)
  | .native (.host name) => Attempt.ofHost (g.host.native name args)
  | .form _ | .expander _ => Attempt.fail (.illegalCall c.display)

/-- Invokes a callable, and in its place the callables that it names. -/
def invokeWithin (g : Engine σ) : Nat → Callable → List Value → Attempt σ Outcome
  | 0, _, _ => Attempt.ofEffect Effect.exhausted
  | fuel + 1, c, args => do
    match ← g.reply c args with
    | .answer (.value v) => return .value v
    | .answer (.stream s) => return .stream s
    | .answer (.compile env e) => return .stream (← g.compile env e)
    | .invoke c args => g.invokeWithin fuel c args

/-- Invokes a callable. -/
def invoke (g : Engine σ) (c : Callable) (args : List Value) : Attempt σ Outcome :=
  g.invokeWithin g.fuel c args

/-- Performs the operation of a call frame. -/
def perform (g : Engine σ) (operation : Operation) (args : List Value) : Attempt σ Outcome := do
  match operation with
  | .callable c => g.invoke c args
  | .branch env consequent alternative =>
    let chosen := if args.head?.any Value.isTrue then consequent else alternative
    return .stream (← g.compile env chosen)
  | .sequel env next => return .stream (← g.compile env next)

end CooperativeLisp.Engine

import CooperativeLisp.Signature

/-!
A sample of host extensions: natives with every kind of signature, natives that answer with
streams, forms that look at the environment they are compiled in, and expanders. The host keeps a
log that one of the natives writes to.
-/

namespace CooperativeLisp.Extension

/-- The lines of the log, latest first. -/
abbrev Log := List String

/-- Fails in the host's own words. -/
def refuse {α : Type} (text : String) : HostAction Log α :=
  throw (.signalled text)

/-- Twice the only argument, which is looked at without a signature. -/
def twice : List Value → HostAction Log Reply
  | [.number x] => replyValue (.number (x * 2.0))
  | _ => throw (.ofFault (.type (.other "twice takes one number")))

/-- A number brought into a range. -/
def clamp (x low high : Float) : HostAction Log Reply :=
  if high < low then refuse ("empty range " ++ Number.text low ++ " " ++ Number.text high)
  else replyValue (.number (if x < low then low else if high < x then high else x))

/-- A call of a callable with the items of a list, left to the run. -/
def later (c : Callable) (items : List Value) : HostAction Log Reply :=
  return .answer (.stream
    { frames := items.map Frame.value ++
        [.call (.callable c) items.length (.symbol "later")] })

/-- A stream that fails at its first frame, with a value behind it. -/
def failLater : Stream :=
  (Stream.empty.pushValue .nil).pushError (.signalled "failed later")

/-- Adds a line to the log and answers with the last argument. -/
def log (args : List Value) : HostAction Log Reply := do
  modify fun w => { w with host := Value.displayAll args :: w.host }
  replyValue (args.getLastD .nil)

/-- The natives, by name. -/
def natives : List (String × (List Value → HostAction Log Reply)) := [
  ("twice", twice),
  ("answer", fixed [] (replyValue (.number 42.0))),
  ("half", fixed [.number] fun x => replyValue (.number (x / 2.0))),
  ("truthy", fixed [.anything] fun v => replyValue (.ofBool v.isTrue)),
  ("swap", fixed [.anything, .anything] fun a b => replyValue (.list [b, a])),
  ("clamp", fixed [.number, .number, .number] clamp),
  ("quad", fixed [.anything, .number, .list .anything, .callable] fun v x items c =>
    replyValue (.list [v, .number x, .ofNat items.length, .callable c])),
  ("sum-list", fixed [.list .numbers] fun xs => replyValue (.number (xs.foldl (· + ·) 0.0))),
  ("later", fixed [.callable, .list .anything] later),
  ("count", variadic .any [] .anything fun vs => replyValue (.ofNat vs.length)),
  ("first-count", variadic (.atLeast 2) [.anything] .anything fun v vs =>
    replyValue (.list [v, .ofNat vs.length])),
  ("weigh", variadic .any [.number, .number] .numbers fun a b xs =>
    replyValue (.number (xs.foldl (· + ·) (a * 100.0 + b * 10.0)))),
  ("gather", variadic (.exact 5) [.number, .anything, .list .anything] .anything
    fun x v items rest => replyValue (.list [.number x, v, .list items, .list rest])),
  ("no-value", fun _ => return .answer (.stream .empty)),
  ("spread", fun args => return .answer (.stream { frames := args.map Frame.value })),
  ("fail-later", fun _ => return .answer (.stream failLater)),
  ("log", log)]

/-- Compiles a sequence that runs only if a condition is true. -/
def whenTrue (env : Environment) : List Value → HostAction Log Answer
  | [] => throw (.ofFault (.arity 1 0))
  | condition :: body =>
    return .compile env
      (.list [.symbol "if", condition, .list (.symbol "progn" :: body)])

/-- Binds a name to an expression that is not evaluated. -/
def bindHere (env : Environment) : List Value → HostAction Log Answer
  | [.symbol name, v] => do
    let w ← get
    let (result, w) := w.bind env name v
    set w
    match result with
    | .ok () => return .value .truth
    | .error e => throw e
  | operands => throw (.ofFault (.arity 2 operands.length))

/-- The names that the scope of an environment itself binds. -/
def locals (env : Environment) : HostAction Log Answer := do
  let w ← get
  return .value (.list ((w.scopes.table env.scope).keys.map Value.symbol))

/-- The forms, by name. -/
def forms : List (String × (List Value → Environment → HostAction Log Answer)) := [
  ("when", fun operands env => whenTrue env operands),
  ("env-depth", fun _ env => return .value (.ofNat env.depth)),
  ("locals", fun _ env => locals env),
  ("bind!", fun operands env => bindHere env operands),
  ("bind-root!", fun operands env => bindHere env.root operands)]

/-- The expanders, by name. -/
def expanders : List (String × (List Value → Environment → HostAction Log Value)) := [
  ("flip", fun operands _ => match operands with
    | [operator, a, b] => return .list [operator, b, a]
    | _ => throw (.ofFault (.arity 3 operands.length))),
  ("if-bound", fun operands env => match operands with
    | [.symbol name, yes, no] => do
      let w ← get
      return if (w.scopes.get? env name).isSome then yes else no
    | _ => throw (.ofFault (.arity 3 operands.length)))]

/-- The meaning of a name in a list of meanings; names without one are not callable. -/
def meaning {α : Type} (missing : String → α) (meanings : List (String × α)) (name : String) : α :=
  (meanings.lookup name).getD (missing name)

/-- The host of the extensions. -/
def host : Host Log where
  native := meaning (fun name _ => throw (.ofFault (.illegalCall name))) natives
  form := meaning (fun name _ _ => throw (.ofFault (.illegalCall name))) forms
  expander := meaning (fun name _ _ => throw (.ofFault (.illegalCall name))) expanders

/-- The table of the extensions, for an interpreter to be built with. -/
def table : Table :=
  Table.ofEntries
    (natives.map (fun entry => (entry.1, .callable (.native (.host entry.1)))) ++
      forms.map (fun entry => (entry.1, .form (.host entry.1))) ++
      expanders.map (fun entry => (entry.1, .expander (.host entry.1))))

end CooperativeLisp.Extension

import CooperativeLisp.Interpreter
import CooperativeLisp.Signature
import CooperativeLisp.Json.Program
import CooperativeLisp.Reader.Program
import CooperativeLisp.Text.Blank
import CooperativeLisp.Text.TypedLine

/-!
The interactive session: lines go in, text comes out. Two natives of the host write to the same
output as the session itself, in the order of the run.
-/

namespace CooperativeLisp.Repl

/-- Appends text to the output, which the host keeps, and answers with the true marker. -/
def write (text : String) : HostAction String Reply := do
  modify fun w => { w with host := w.host ++ text }
  replyValue .truth

/-- The natives of the session: showing values, and clearing the screen of a terminal. -/
def natives : String → List Value → HostAction String Reply
  | "print" => variadic .any [] .anything fun vs => write (Value.displayAll vs ++ "\n")
  | "clear" => fixed [] (write "\x1b[2J\x1b[1;1H")
  | name => fun _ => throw (.ofFault (.illegalCall name))

def host : Host String :=
  { Host.none String with native := natives }

def engine : Engine String :=
  .withFuel host ampleFuel

/-- A session between two lines. -/
structure Session where
  interpreter : Interpreter
  world : World String
  showsDocuments : Bool

def banner : String :=
  "slicelisp REPL\n" ++
  "Enter S-expressions like: (+ 1 2)\n" ++
  "Enter JSON arrays like: [\"+\", 1, 2]\n" ++
  "Type :help for more commands, or Ctrl+C to exit.\n\n"

def farewell : String := "Goodbye!\n"

def help : String :=
  "Commands:\n" ++
  "  :help      - Show this help message\n" ++
  "  :env       - Show root environment bindings\n" ++
  "  :json      - Toggle JSON output of results\n" ++
  "  :quit      - Exit the interpreter\n" ++
  "  Ctrl+C     - Exit the interpreter\n\n" ++
  "Syntax:\n" ++
  "  Numbers: 42, -5, 2.5\n" ++
  "  Markers: nil (also the empty list), t\n" ++
  "  Quoting: 'x, '(1 2), [1 2]\n" ++
  "  Comments: ; to end of line\n\n" ++
  "Examples:\n" ++
  "  (+ 1 2 3)\n" ++
  "  (let ((x 2) (y 3)) (* x y))\n" ++
  "  (export ((square (lambda (x) (* x x)))))\n" ++
  "  (let ((f (lambda (n) (if (= n 0) 'done (recur (- n 1)))))) (f 100000))\n" ++
  "  [\"if\", \"t\", 1, 2]\n" ++
  "  (print 'hello (+ 1 2))\n\n" ++
  "Set SLICELISP_LOG=debug to trace incremental slices.\n\n"

/-- A new session; the output starts with the banner. -/
def Session.start : Session :=
  let extensions := Table.ofEntries (["print", "clear"].map fun name =>
    (name, .callable (.native (.host name))))
  let (interpreter, world) := Interpreter.build { host := banner } Library.table extensions {}
  { interpreter, world, showsDocuments := false }

/-- A name in a column of fifteen characters behind two blanks. -/
def column (name : String) : String :=
  "  " ++ name ++ String.ofList (List.replicate (15 - name.length) ' ')

/-- Rows of so many elements; the last one may be shorter. -/
def rows {α : Type} (width : Nat) (xs : List α) : List (List α) :=
  if _h : xs = [] ∨ width = 0 then []
  else xs.take width :: rows width (xs.drop width)
termination_by xs.length
decreasing_by
  have : 0 < xs.length := List.length_pos_iff.2 fun h => _h (.inl h)
  rw [List.length_drop]
  omega

/-- The listing of the bindings of an environment: the names of the callables in rows of four,
then the other names with their values. -/
def listing (bindings : List (String × Value)) : String :=
  let callables := bindings.filter fun b => b.2.callable?.isSome
  let values := bindings.filter fun b => b.2.callable?.isNone
  let callableRows := (rows 4 callables).map fun row =>
    String.join (row.map fun b => column b.1) ++ "\n"
  let valueRows := values.map fun b => "  " ++ b.1 ++ " = " ++ b.2.display ++ "\n"
  if bindings.isEmpty then "Environment is empty.\n"
  else
    (if callables.isEmpty then ""
      else "Callables (" ++ toString callables.length ++ "):\n" ++ String.join callableRows ++
        "\n") ++
    (if values.isEmpty then ""
      else "Values (" ++ toString values.length ++ "):\n" ++ String.join valueRows)

namespace Session

/-- The session after more output. -/
def shows (s : Session) (text : String) : Session :=
  { s with world := { s.world with host := s.world.host ++ text } }

/-- A value as the session shows results. -/
def resultText (s : Session) (v : Value) : String :=
  if s.showsDocuments then
    match Json.write v with
    | .ok text => text
    | .error _ => v.display
  else v.display

/-- Evaluates an expression in slices and shows its value or its failure. -/
def evaluate (s : Session) (e : Value) : Option Session := do
  let run : Effect String (Except Error Value) := do
    engine.complete (fun _ => Clock.still) (← s.interpreter.startEvaluation engine e)
  let (result, world) ← run s.world
  let s := { s with world }
  match result with
  | .ok v => return s.shows (s.resultText v ++ "\n")
  | .error e => return s.shows ("Error: " ++ e.report ++ "\n")

/-- Evaluates expressions in turn. -/
def evaluateAll (s : Session) : List Value → Option Session
  | [] => some s
  | e :: es => do (← s.evaluate e).evaluateAll es

/-- Evaluates a line of program text; a line that starts with a square bracket is read as a
document if it is one. -/
def evaluateLine (s : Session) (line : String) : Option Session :=
  let asDocument := if line.startsWith "[" then (Json.readProgram line).toOption else none
  match asDocument with
  | some e => (s.shows ("→ " ++ e.display ++ "\n")).evaluateAll [e]
  | none =>
    match readProgram true line with
    | .ok es => s.evaluateAll es
    | .error e => some (s.shows ("Error: " ++ e.report ++ "\n"))

/-- Takes the output written so far out of the session. -/
def takeOutput (s : Session) : String × Session :=
  (s.world.host, { s with world := { s.world with host := "" } })

end Session

/-- What a line leads to: the next line, the end of the session, or its failure on a line whose
backspaces leave no text. -/
inductive Turn where
  | next (s : Session)
  | stop (s : Session)
  | fail (s : Session)

/-- Takes one line of text without blanks at its ends. There is no answer only when the fuel of the
engine is used up. -/
def Session.take (s : Session) : String → Option Turn
  | "" => some (.next s)
  | ":help" => some (.next (s.shows help))
  | ":env" => some (.next (s.shows (listing (s.world.scopes.bindings s.interpreter.root))))
  | ":json" =>
    let s := { s with showsDocuments := !s.showsDocuments }
    let form := if s.showsDocuments then "JSON" else "S-expressions"
    some (.next (s.shows ("Results shown as " ++ form ++ "\n")))
  | ":quit" | ":exit" => some (.stop (s.shows farewell))
  | line => (s.evaluateLine line).map .next

/-- Takes one line of input as it was typed. -/
def Session.feed (s : Session) (line : String) : Option Turn :=
  match Text.withoutBackspaces line with
  | none => some (.fail s)
  | some text => s.take (Text.trimmed text)

/-- The whole output of a session, and whether it came to its end without a failure. -/
structure Transcript where
  output : String
  completed : Bool

/-- What a session writes that is fed some lines; the end of the input ends it too. -/
def Session.transcript (s : Session) : List String → Option Transcript
  | [] => some { output := (s.shows farewell).world.host, completed := true }
  | line :: lines => do
    match ← s.feed line with
    | .next s => s.transcript lines
    | .stop s => return { output := s.world.host, completed := true }
    | .fail s => return { output := s.world.host, completed := false }

end CooperativeLisp.Repl

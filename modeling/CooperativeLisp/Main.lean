import CooperativeLisp.Repl

/-!
The interactive program: it reads lines from the terminal and shows the output of the session.
-/

namespace CooperativeLisp

/-- The status of a program whose session has failed. -/
def failureStatus : UInt32 := 101

/-- Shows what the session has written, then reads and feeds the next line until the session or
the input ends; answers with the status of the program. -/
partial def converse (input output : IO.FS.Stream) (s : Repl.Session) : IO UInt32 := do
  let (text, s) := s.takeOutput
  output.putStr text
  output.flush
  let line ← input.getLine
  if line.isEmpty then
    output.putStr Repl.farewell
    return 0
  else
    match s.feed line with
    | some (.next s) => converse input output s
    | some (.stop s) =>
      output.putStr s.takeOutput.1
      return 0
    | some (.fail _) => return failureStatus
    | none => return failureStatus

end CooperativeLisp

def main : IO UInt32 := do
  CooperativeLisp.converse (← IO.getStdin) (← IO.getStdout) CooperativeLisp.Repl.Session.start

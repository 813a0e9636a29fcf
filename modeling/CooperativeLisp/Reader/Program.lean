import CooperativeLisp.Reader.Token

/-!
The reader of program text. Brackets and quote marks that are still open stand on a stack, the
innermost first, so the depth of nesting is the height of the stack. Main statement: reading an
expression always uses some text up.
-/

namespace CooperativeLisp.Reader

/-- An expression stands under fewer open brackets and quote marks than this. -/
def maxDepth : Nat := 128

/-- A bracket or a quote mark that is still open, with the elements read so far, latest first. -/
inductive Open where
  | list (elements : List Value)
  | data (elements : List Value)
  | quote

/-- Where reading stopped: too deep inside of open brackets, or before a text that goes on in no
allowed way. -/
inductive Stop where
  | tooDeep
  | before (rest : List Char)
deriving DecidableEq, Repr

/-- The expression that stands for a value as it is. -/
def quoted (v : Value) : Value :=
  .list [.symbol "quote", v]

/-- The value of a bracket that is closed by this character. -/
def Open.closedBy? (c : Char) : Open → Option Value
  | list elements => if c == ')' then some (.list elements.reverse) else none
  | data elements => if c == ']' then some (quoted (.list elements.reverse)) else none
  | quote => none

/-- The bracket or quote mark that a character opens. -/
def Open.openedBy? (c : Char) : Option Open :=
  if c == '(' then some (list [])
  else if c == '[' then some (data [])
  else if c == '\'' then some quote
  else none

/-- Hands a value to what is open around it: a quote mark is complete then, a bracket waits for
more. With nothing open the value is the expression read. -/
def deliver : List Open → Value → Value ⊕ List Open
  | [], v => .inl v
  | .quote :: outer, v => deliver outer (quoted v)
  | .list elements :: outer, v => .inr (.list (v :: elements) :: outer)
  | .data elements :: outer, v => .inr (.data (v :: elements) :: outer)

/-- What the next token does. -/
inductive Move where
  /-- a bracket or quote mark is opened -/
  | enter (opened : Open) (rest : List Char)
  /-- a value is complete inside of `outer` -/
  | complete (outer : List Open) (v : Value) (rest : List Char)

/-- Reads one token inside of what is open. A closing bracket is looked for before the depth is
checked, and the end of the text inside a bracket is found before that, too. -/
def next (comments : Bool) (opened : List Open) (s : List Char) : Except Stop Move :=
  match skipLayout comments s, opened with
  | [], .list _ :: _ | [], .data _ :: _ => .error (.before [])
  | [], _ => .error (if maxDepth ≤ opened.length then .tooDeep else .before [])
  | c :: rest, opened =>
    match opened.head?.bind (Open.closedBy? c) with
    | some v => .ok (.complete opened.tail v rest)
    | none =>
      if maxDepth ≤ opened.length then .error .tooDeep
      else match Open.openedBy? c with
        | some inner => .ok (.enter inner rest)
        | none =>
          match atom? (c :: rest) with
          | some (v, rest) => .ok (.complete opened v rest)
          | none => .error (.before (c :: rest))

/-- The text behind the token. -/
def Move.rest : Move → List Char
  | enter _ rest => rest
  | complete _ _ rest => rest

theorem next_length {comments : Bool} {opened : List Open} {s : List Char} {move : Move}
    (read : next comments opened s = .ok move) : move.rest.length < s.length := by
  have layout := skipLayout_length comments s
  unfold next at read
  split at read
  · exact absurd read (by simp)
  · exact absurd read (by simp)
  · exact absurd read (by simp)
  · rename_i c rest _ skipped
    rw [skipped, List.length_cons] at layout
    split at read
    · cases read
      exact layout
    · split at read
      · exact absurd read (by simp)
      · split at read
        · cases read
          exact layout
        · split at read
          · rename_i atom
            cases read
            have := atom?_length atom
            rw [List.length_cons] at this
            exact Nat.lt_of_lt_of_le this layout
          · exact absurd read (by simp)

/-- Reads an expression inside of what is open, up to the end of the outermost open bracket. -/
def readInside (comments : Bool) (opened : List Open) (s : List Char) :
    Except Stop (Value × List Char) :=
  match _read : next comments opened s with
  | .error stop => .error stop
  | .ok (.enter inner rest) => readInside comments (inner :: opened) rest
  | .ok (.complete outer v rest) =>
    match deliver outer v with
    | .inl v => .ok (v, rest)
    | .inr opened => readInside comments opened rest
termination_by s.length
decreasing_by
  · exact next_length _read
  · exact next_length _read

/-- Reads one expression; the text behind it is left. -/
def readExpression (comments : Bool) (s : List Char) : Except Stop (Value × List Char) :=
  readInside comments [] s

theorem readInside_length {comments : Bool} {opened : List Open} {s rest : List Char} {v : Value}
    (read : readInside comments opened s = .ok (v, rest)) : rest.length < s.length := by
  fun_induction readInside comments opened s with
  | case1 => exact absurd read (by simp)
  | case2 opened s inner rest' token ih =>
    exact Nat.lt_trans (ih read) (next_length token)
  | case3 opened s outer v' rest' token value done =>
    cases read
    exact next_length token
  | case4 opened s outer v' rest' token opened' waits ih =>
    exact Nat.lt_trans (ih read) (next_length token)

/-- Reads expressions up to the end of the text. -/
def readAll (comments : Bool) (s : List Char) : Except Stop (List Value) :=
  if skipLayout comments s = [] then .ok []
  else
    match _read : readExpression comments s with
    | .error stop => .error stop
    | .ok (v, rest) => (readAll comments rest).map (v :: ·)
termination_by s.length
decreasing_by exact readInside_length _read

/-- The number of bytes of a text. -/
def byteSize (s : List Char) : Nat :=
  s.foldl (fun n c => n + c.utf8Size) 0

/-- The fault of a text that could not be read: the place of the stop, in bytes from the start,
and the next ten characters. -/
def Stop.fault (input : List Char) : Stop → Fault
  | tooDeep => .parse (.tooDeep maxDepth)
  | before [] => .parse .endOfInput
  | before rest =>
    .parse (.invalidAt (byteSize input - byteSize rest) (String.ofList (rest.take 10)))

end CooperativeLisp.Reader

namespace CooperativeLisp

open Reader

/-- Reads a text that holds exactly one expression. -/
def readOne (comments : Bool) (text : String) : Except Error Value :=
  let input := text.toList
  match readExpression comments input with
  | .error stop => .error (stop.fault input)
  | .ok (v, rest) =>
    match skipLayout comments rest with
    | [] => .ok v
    | more => .error (Fault.parse (.leftover (String.ofList (more.take 20))))

/-- Reads all expressions of a text. -/
def readProgram (comments : Bool) (text : String) : Except Error (List Value) :=
  let input := text.toList
  match readAll comments input with
  | .error stop => .error (stop.fault input)
  | .ok vs => .ok vs

end CooperativeLisp

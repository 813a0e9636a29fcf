import CooperativeLisp.Json.Document

/-!
Programs as documents: arrays are lists, strings are symbols, numbers are numbers, and the truth
values, null and two names are the markers. Single quotes may stand for double ones, so a program
can be embedded in a quoted text. Values without callables can be written back.
-/

namespace CooperativeLisp.Json

mutual

/-- The expression that a document stands for. -/
def toValue : Document → Except Error Value
  | .null | .bool false => .ok .nil
  | .bool true => .ok .truth
  | .number x => .ok (.number x)
  | .string s =>
    if s == Symbol.nilName || s == Symbol.truthName || Symbol.isName s.toList then
      .ok (Reader.ofName s)
    else .error (Fault.parse (.invalidSymbol s))
  | .array items =>
    match toValues [] items with
    | .ok vs => .ok (.list vs)
    | .error e => .error e
  | .object _ => .error (Fault.parse .documentObject)

/-- The expressions of an array behind those already converted, which are kept latest first. -/
def toValues (before : List Value) : List Document → Except Error (List Value)
  | [] => .ok before.reverse
  | d :: ds =>
    match toValue d with
    | .ok v => toValues (v :: before) ds
    | .error e => .error e

end

/-- Reads a program. -/
def readProgram (text : String) : Except Error Value :=
  match read? (text.toList.map fun c => if c = '\'' then '"' else c) with
  | some d => toValue d
  | none => .error (Fault.parse .invalidDocument)

/-- A character inside a string of a document. -/
def writtenChar (c : Char) : String :=
  match c with
  | '"' => "\\\""
  | '\\' => "\\\\"
  | '\n' => "\\n"
  | '\r' => "\\r"
  | '\t' => "\\t"
  | '\x08' => "\\b"
  | '\x0c' => "\\f"
  | c =>
    if c.toNat < 0x20 then
      "\\u00" ++ (if c.toNat < 0x10 then "0" else "1") ++
        String.ofList (Nat.toDigits 16 (c.toNat % 16))
    else c.toString

/-- A string of a document. -/
def writtenString (s : String) : String :=
  s.foldl (fun shown c => shown ++ writtenChar c) "\"" ++ "\""

mutual

/-- Appends a value as a document; callables and numbers that are not finite have no written
form. -/
def appendTo (shown : String) : Value → Except Error String
  | .number x =>
    match Number.documentText? x with
    | some text => .ok (shown ++ text)
    | none => .error (Fault.type (.unwritable (.number x)))
  | .symbol name => .ok (shown ++ writtenString name)
  | .nil => .ok (shown ++ writtenString Symbol.nilName)
  | .truth => .ok (shown ++ writtenString Symbol.truthName)
  | .list [] => .ok (shown ++ "[]")
  | .list (v :: vs) =>
    match appendTo (shown ++ "[") v with
    | .ok shown =>
      match appendAll shown vs with
      | .ok shown => .ok (shown ++ "]")
      | .error e => .error e
    | .error e => .error e
  | .callable c => .error (Fault.type (.unwritable (.callable c)))

/-- Appends values as documents, each behind a comma. -/
def appendAll (shown : String) : List Value → Except Error String
  | [] => .ok shown
  | v :: vs =>
    match appendTo (shown ++ ",") v with
    | .ok shown => appendAll shown vs
    | .error e => .error e

end

/-- A value as a document. -/
def write (v : Value) : Except Error String :=
  appendTo "" v

end CooperativeLisp.Json

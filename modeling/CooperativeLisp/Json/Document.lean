import CooperativeLisp.Json.Numeral
import CooperativeLisp.Reader.Token

/-!
Documents, the general form behind programs written as arrays, and their reader. What is still
open stands on a stack, the innermost first; at most 127 arrays and objects may be open at a time.
-/

namespace CooperativeLisp.Json

/-- A document. -/
inductive Document where
  | null
  | bool (b : Bool)
  | number (x : Float)
  | string (s : String)
  | array (items : List Document)
  | object (members : List (String × Document))

/-- How many arrays and objects may be open at a time. -/
def maxOpen : Nat := 127

/-- Drops the blanks in front of a token. -/
def skipBlanks (s : List Char) : List Char :=
  s.dropWhile Reader.isLayout

/-- The value of four hexadecimal digits. -/
def hexValue? (digits : List Char) : Option Nat :=
  digits.foldlM (fun n c =>
    if c.isDigit then some (16 * n + (c.toNat - '0'.toNat))
    else if 'a' ≤ c ∧ c ≤ 'f' then some (16 * n + (c.toNat - 'a'.toNat + 10))
    else if 'A' ≤ c ∧ c ≤ 'F' then some (16 * n + (c.toNat - 'A'.toNat + 10))
    else none) 0

/-- The character of an escape of one letter. -/
def escaped? (c : Char) : Option Char :=
  match c with
  | '"' => some '"'
  | '\\' => some '\\'
  | '/' => some '/'
  | 'b' => some '\x08'
  | 'f' => some '\x0c'
  | 'n' => some '\n'
  | 'r' => some '\r'
  | 't' => some '\t'
  | _ => none

/-- A code point that is no half of a pair. -/
def plainUnit (n : Nat) : Bool :=
  n < 0xD800 || 0xE000 ≤ n

/-- The character of a pair of halves. -/
def pairedChar? (high low : Nat) : Option Char :=
  if high < 0xDC00 && 0xDC00 ≤ low && low < 0xE000 then
    some (Char.ofNat (0x10000 + (high - 0xD800) * 0x400 + (low - 0xDC00)))
  else none

/-- Reads the inside of a string up to its closing quote; `seen` holds the characters read so far,
latest first. Controls must be escaped, and escaped halves must come in pairs. -/
def stringEnd? (seen : List Char) : List Char → Option (String × List Char)
  | '"' :: rest => some (String.ofList seen.reverse, rest)
  | '\\' :: 'u' :: a :: b :: c :: d :: '\\' :: 'u' :: e :: f :: g :: h :: rest => do
    let high ← hexValue? [a, b, c, d]
    if plainUnit high then
      stringEnd? (Char.ofNat high :: seen) ('\\' :: 'u' :: e :: f :: g :: h :: rest)
    else
      let low ← hexValue? [e, f, g, h]
      stringEnd? ((← pairedChar? high low) :: seen) rest
  | '\\' :: 'u' :: a :: b :: c :: d :: rest => do
    let unit ← hexValue? [a, b, c, d]
    if plainUnit unit then stringEnd? (Char.ofNat unit :: seen) rest else none
  | '\\' :: c :: rest => do stringEnd? ((← escaped? c) :: seen) rest
  | c :: rest => if c.toNat < 0x20 || c == '\\' then none else stringEnd? (c :: seen) rest
  | [] => none

/-- Splits digits off. -/
def digits (s : List Char) : List Char × List Char :=
  (s.takeWhile Char.isDigit, s.dropWhile Char.isDigit)

/-- Reads the fraction of a numeral, which has at least one digit if there is a point. -/
def fraction? : List Char → Option (List Char × List Char)
  | '.' :: s => if (digits s).1.isEmpty then none else some (digits s)
  | s => some ([], s)

/-- Reads the power of ten of a numeral, which has at least one digit. -/
def exponent? : List Char → Option (Option (Bool × List Char) × List Char)
  | [] => some (none, [])
  | c :: s =>
    if c = 'e' ∨ c = 'E' then
      let (negative, s) := Number.splitSign s
      if (digits s).1.isEmpty then none else some (some (negative, (digits s).1), (digits s).2)
    else some (none, c :: s)

/-- Splits a minus sign off. -/
def splitMinus : List Char → Bool × List Char
  | '-' :: body => (true, body)
  | s => (false, s)

/-- Splits the whole part of a numeral off: a zero stands alone. -/
def splitWhole : List Char → List Char × List Char
  | '0' :: rest => (['0'], rest)
  | s => digits s

/-- Reads a numeral: no plus sign, no superfluous zero in front. -/
def numeral? (s : List Char) : Option (Numeral × List Char) := do
  let (negative, body) := splitMinus s
  let (whole, rest) := splitWhole body
  if whole.isEmpty then none
  let (fraction, rest) ← fraction? rest
  let (exponent, rest) ← exponent? rest
  return ({ negative, whole, fraction, exponent }, rest)

/-- Reads a document that is neither array nor object. -/
def scalar? : List Char → Option (Document × List Char)
  | 'n' :: 'u' :: 'l' :: 'l' :: rest => some (.null, rest)
  | 't' :: 'r' :: 'u' :: 'e' :: rest => some (.bool true, rest)
  | 'f' :: 'a' :: 'l' :: 's' :: 'e' :: rest => some (.bool false, rest)
  | '"' :: rest => do
    let (s, rest) ← stringEnd? [] rest
    return (.string s, rest)
  | s => do
    let (n, rest) ← numeral? s
    return (.number (← n.toFloat?), rest)

/-- An array or an object that is still open, with what has been read of it, latest first. -/
inductive Open where
  | array (items : List Document)
  | object (members : List (String × Document)) (key : String)

/-- What the next tokens do. -/
inductive Move where
  /-- a document is expected inside of what is open -/
  | expect (opened : List Open) (rest : List Char)
  /-- a document is complete inside of what is open -/
  | complete (opened : List Open) (d : Document) (rest : List Char)

def Move.rest : Move → List Char
  | expect _ rest => rest
  | complete _ _ rest => rest

/-- Reads the key of a member and the colon behind it. -/
def key? (s : List Char) : Option (String × List Char) :=
  match skipBlanks s with
  | '"' :: rest => do
    let (key, rest) ← stringEnd? [] rest
    match skipBlanks rest with
    | ':' :: rest => return (key, rest)
    | _ => none
  | _ => none

/-- Reads a document, or the start of one. -/
def nextDocument? (opened : List Open) (s : List Char) : Option Move :=
  match skipBlanks s with
  | '[' :: rest =>
    if maxOpen ≤ opened.length then none
    else match skipBlanks rest with
      | ']' :: rest => some (.complete opened (.array []) rest)
      | _ => some (.expect (.array [] :: opened) rest)
  | '\x7b' :: rest =>
    if maxOpen ≤ opened.length then none
    else match skipBlanks rest with
      | '\x7d' :: rest => some (.complete opened (.object []) rest)
      | rest => do
        let (key, rest) ← key? rest
        return .expect (.object [] key :: opened) rest
  | s => do
    let (d, rest) ← scalar? s
    return .complete opened d rest

/-- Reads what follows a document inside of what is open around it. -/
def nextSeparator? (around : Open) (outer : List Open) (d : Document) (s : List Char) :
    Option Move :=
  match around, skipBlanks s with
  | .array items, ',' :: rest => some (.expect (.array (d :: items) :: outer) rest)
  | .array items, ']' :: rest => some (.complete outer (.array (d :: items).reverse) rest)
  | .object members key, ',' :: rest => do
    let (next, rest) ← key? rest
    return .expect (.object ((key, d) :: members) next :: outer) rest
  | .object members key, '\x7d' :: rest =>
    some (.complete outer (.object ((key, d) :: members).reverse) rest)
  | _, _ => none

/-- Reads the rest of a document inside of what is open; `latest` is a document that has just been
completed there. Every move uses text up, so the length of the text bounds the moves. -/
def readInside? : Nat → List Open → Option Document → List Char → Option (Document × List Char)
  | _, [], some d, s => some (d, s)
  | 0, _, _, _ => none
  | fuel + 1, opened, latest, s => do
    let move ← match opened, latest with
      | around :: outer, some d => nextSeparator? around outer d s
      | opened, _ => nextDocument? opened s
    match move with
    | .expect opened rest => readInside? fuel opened none rest
    | .complete opened d rest => readInside? fuel opened (some d) rest

/-- Reads a text that holds exactly one document. -/
def read? (s : List Char) : Option Document := do
  let (d, rest) ← readInside? (s.length + 1) [] none s
  if (skipBlanks rest).isEmpty then return d else none

end CooperativeLisp.Json

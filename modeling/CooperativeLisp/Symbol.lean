import CooperativeLisp.Text.Alphanumeric

/-!
Names of symbols: which texts the readers accept as one, and which names are never bound.
-/

namespace CooperativeLisp.Symbol

/-- The signs a name may hold besides letters and numerals. -/
def signs : List Char :=
  ['+', '-', '*', '/', '<', '>', '=', '!', '?', '_', '$', '&', '%']

/-- A character of a name. -/
def isNameChar (c : Char) : Bool :=
  Text.isAlphanumeric c || signs.contains c

/-- Whether the text starts as a number does: with a digit, or with a sign and a digit. -/
def startsAsNumber : List Char → Bool
  | c :: d :: _ => c.isDigit || ((c == '-' || c == '+') && d.isDigit)
  | [c] => c.isDigit
  | [] => false

/-- A name is a non-empty run of name characters that does not start as a number does. -/
def isName (name : List Char) : Bool :=
  !name.isEmpty && !startsAsNumber name && name.all isNameChar

/-- The nil marker as it is written. -/
def nilName : String := "nil"

/-- The true marker as it is written. -/
def truthName : String := "t"

/-- Stands before the rest parameter in a list of parameters. -/
def restMarker : String := "&rest"

/-- Names the running closure in its own body. -/
def selfName : String := "recur"

/-- Names that stand for markers and are never bound. -/
def isReserved (name : String) : Bool :=
  name == nilName || name == truthName || name == restMarker

end CooperativeLisp.Symbol

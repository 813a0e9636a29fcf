import CooperativeLisp.Decimal.Notation

/-!
Reading decimals. A decimal is rounded correctly to the nearest double however many digits it
has; magnitudes out of range become infinite or zero.
-/

namespace CooperativeLisp

/-- The value of a run of digits. -/
def digitsValue (digits : List Char) : Nat :=
  digits.foldl (fun n c => 10 * n + (c.toNat - '0'.toNat)) 0

/-- The double nearest to a decimal. Decimals beyond `1e400` or below `1e-400` are decided by
their magnitude alone. -/
def Decimal.toFloat (d : Decimal) : Float :=
  if d.significand = 0 then 0.0
  else if 400 < d.magnitude then 1.0 / 0.0
  else if d.magnitude < -400 then 0.0
  else if 0 ≤ d.exponent then Float.ofScientific d.significand false d.exponent.toNat
  else Float.ofScientific d.significand true (-d.exponent).toNat

/-- A decimal with its sign as a double; a negative zero keeps its sign. -/
def Decimal.toSigned (negative : Bool) (d : Decimal) : Float :=
  if negative then -d.toFloat else d.toFloat

/-- The decimal written as digits before and after the point, times a power of ten. -/
def Decimal.ofParts (whole fraction : List Char) (exponent : Int) : Decimal :=
  ⟨digitsValue (whole ++ fraction), exponent - fraction.length⟩

namespace Number

/-- Splits a sign off. -/
def splitSign : List Char → Bool × List Char
  | '-' :: rest => (true, rest)
  | '+' :: rest => (false, rest)
  | rest => (false, rest)

/-- Reads the power of ten behind an `e`; nothing at all is the power zero. -/
def exponent? : List Char → Option Int
  | [] => some 0
  | c :: rest =>
    if c = 'e' ∨ c = 'E' then
      let (negative, digits) := splitSign rest
      if digits ≠ [] ∧ digits.all Char.isDigit then
        some (if negative then -(digitsValue digits : Int) else digitsValue digits)
      else none
    else none

/-- Reads a number in full: sign, digits, fraction and power of ten, or one of the names `NaN`
and `inf`. -/
def ofText? (s : String) : Option Float :=
  let (negative, rest) := splitSign s.toList
  if rest = "NaN".toList then some (0.0 / 0.0)
  else if rest = "inf".toList then some (if negative then -(1.0 / 0.0) else 1.0 / 0.0)
  else
    let whole := rest.takeWhile Char.isDigit
    let rest := rest.dropWhile Char.isDigit
    let (fraction, rest) := match rest with
      | '.' :: more => (more.takeWhile Char.isDigit, more.dropWhile Char.isDigit)
      | _ => ([], rest)
    if whole ++ fraction = [] then none
    else (exponent? rest).map fun e => (Decimal.ofParts whole fraction e).toSigned negative

end Number

end CooperativeLisp

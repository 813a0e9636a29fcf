import CooperativeLisp.Decimal.Shortest

/-!
Decimals as text: all digits in their places, or one digit before the point and a power of ten.
The two text forms of a number, plain and for documents, are fixed here.
-/

namespace CooperativeLisp

/-- The digits of the significand, most significant first. -/
def Decimal.digits (d : Decimal) : List Char :=
  Nat.toDigits 10 d.significand

/-- Every digit in its place, with zeros up to the point where the digits do not reach it. -/
def Decimal.positional (d : Decimal) : String :=
  let digits := d.digits
  if 0 ≤ d.exponent then
    String.ofList (digits ++ List.replicate d.exponent.toNat '0')
  else
    let places := (-d.exponent).toNat
    if places < digits.length then
      String.ofList (digits.take (digits.length - places) ++
        '.' :: digits.drop (digits.length - places))
    else
      String.ofList ('0' :: '.' :: (List.replicate (places - digits.length) '0' ++ digits))

/-- The power of ten of the first digit. -/
def Decimal.magnitude (d : Decimal) : Int :=
  d.exponent + d.digits.length - 1

/-- One digit before the point, and the power of ten after an `e` with its sign. -/
def Decimal.scientific (d : Decimal) : String :=
  let lead := match d.digits with
    | [] => []
    | [c] => [c]
    | c :: more => c :: '.' :: more
  let sign := if d.magnitude < 0 then "-" else "+"
  String.ofList lead ++ "e" ++ sign ++ toString d.magnitude.natAbs

namespace Number

/-- The sign in front of a text. -/
def signed (negative : Bool) (text : String) : String :=
  if negative then "-" ++ text else text

/-- A number as the language shows it: the fewest digits that read back, each in its place, with
no exponent; of two equally near decimals the larger. Zero keeps its sign. -/
def text (x : Float) : String :=
  match Decoded.ofFloat x with
  | .notANumber => "NaN"
  | .infinite negative => signed negative "inf"
  | .finite b => signed b.negative (b.shortest .up).positional

/-- A number in a document: whole numbers below `2 ^ 63` in full, without the sign of zero; others
by their fewest digits, positional from `1e-5` up to `1e16` and with an exponent elsewhere. Not
every number can be written in a document. -/
def documentText? (x : Float) : Option String :=
  match Decoded.ofFloat x with
  | .finite b =>
    match b.toInt?.filter (·.natAbs < Nat.pow 2 63) with
    | some n => some (toString n)
    | none =>
      let d := b.shortest .even
      some (signed b.negative
        (if -5 ≤ d.magnitude ∧ d.magnitude < 16 then d.positional else d.scientific))
  | _ => none

end Number

end CooperativeLisp

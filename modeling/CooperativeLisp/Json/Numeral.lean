import CooperativeLisp.Decimal.Read

/-!
Numerals of documents. A numeral is converted in one multiplication or division of doubles: its
leading digits, as many as 64 bits hold, times a power of ten. Short numerals come out correctly
rounded; long ones may be off in the last place, and a numeral beyond the range is refused.
-/

namespace CooperativeLisp.Json

/-- The parts of a numeral as written. -/
structure Numeral where
  negative : Bool
  whole : List Char
  fraction : List Char
  /-- sign and digits of the power of ten, if one is written -/
  exponent : Option (Bool × List Char)
deriving DecidableEq, Repr

/-- The largest significand, and the greatest power of ten of a double. -/
def maxSignificand : Nat := Nat.pow 2 64 - 1

def maxPower : Nat := 308

/-- Whether another digit still fits behind a significand. -/
def fits (significand digit : Nat) : Bool :=
  significand * 10 + digit ≤ maxSignificand

/-- The leading digits that fit, and the digits behind them. -/
def leading : Nat → List Char → Nat × List Char
  | significand, [] => (significand, [])
  | significand, c :: cs =>
    let digit := c.toNat - '0'.toNat
    if fits significand digit then leading (significand * 10 + digit) cs
    else (significand, c :: cs)

/-- A power of ten as a double. -/
def powerOfTen (n : Nat) : Float :=
  Float.ofScientific 1 false n

/-- Scales a double by a power of ten; magnitudes beyond the range are refused, and small ones are
scaled down in steps of the greatest power. -/
def scale : Nat → Float → Int → Option Float
  | 0, _, _ => some 0.0
  | steps + 1, x, exponent =>
    if exponent.natAbs ≤ maxPower then
      if 0 ≤ exponent then
        let y := x * powerOfTen exponent.toNat
        if y.isInf then none else some y
      else some (x / powerOfTen (-exponent).toNat)
    else if x == 0.0 then some x
    else if 0 ≤ exponent then none
    else scale steps (x / powerOfTen maxPower) (exponent + maxPower)

/-- The greatest power of ten that is looked at. -/
def exponentLimit : Nat := Nat.pow 2 31 - 1

namespace Numeral

/-- The double that a significand and a power of ten stand for. Five steps of scaling turn every
significand into zero. -/
def compose (negative : Bool) (significand : Nat) (exponent : Int) : Option Float :=
  (scale 8 significand.toUInt64.toFloat exponent).map fun x => if negative then -x else x

/-- The power of ten as written; none stands for the power zero. -/
def power (n : Numeral) : Int :=
  match n.exponent with
  | none => 0
  | some (true, digits) => -(digitsValue digits : Int)
  | some (false, digits) => digitsValue digits

/-- Whether neither a fraction nor a power of ten is written. -/
def isInteger (n : Numeral) : Bool :=
  n.fraction.isEmpty && n.exponent.isNone

/-- The double that a numeral stands for. Digits of the whole part that do not fit raise the power
of ten, digits of the fraction that do not fit are dropped. -/
def toFloat? (n : Numeral) : Option Float :=
  let (whole, surplus) := leading 0 n.whole
  let (significand, dropped) := leading whole n.fraction
  let places := n.fraction.length - dropped.length
  if n.isInteger && surplus.isEmpty then
    let x := significand.toUInt64.toFloat
    some (if n.negative then -x else x)
  else if exponentLimit < n.power.natAbs then
    if significand = 0 ∨ n.power < 0 then some (if n.negative then -0.0 else 0.0) else none
  else compose n.negative significand (n.power - places + surplus.length)

end Numeral

end CooperativeLisp.Json

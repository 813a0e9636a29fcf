/-!
A double taken apart: sign, significand and exponent as exact integers. Everything the library
prints about a number, and every test whether a number is whole, reads this form, so no rounding
can enter between a number and its text.
-/

namespace CooperativeLisp

/-- A finite magnitude `significand · 2 ^ exponent` with its sign. `tightBelow` says that the next
smaller double is only half as far away as the next larger one. -/
structure Binary where
  negative : Bool
  significand : Nat
  exponent : Int
  tightBelow : Bool
deriving DecidableEq, Repr

/-- What a double stands for. -/
inductive Decoded where
  | finite (b : Binary)
  | infinite (negative : Bool)
  | notANumber
deriving DecidableEq, Repr

/-- The meaning of the 64 bits of a double: one sign bit, eleven of exponent, 52 of fraction. -/
def Decoded.ofBits (bits : Nat) : Decoded :=
  let negative := (bits >>> 63) % 2 == 1
  let exponent : Nat := (bits >>> 52) % 2048
  let fraction : Nat := bits % Nat.pow 2 52
  if exponent = 2047 then
    if fraction = 0 then .infinite negative else .notANumber
  else if exponent = 0 then .finite ⟨negative, fraction, -1074, false⟩
  else
    let tightBelow := fraction == 0 && 1 < exponent
    .finite ⟨negative, fraction + Nat.pow 2 52, (exponent : Int) - 1075, tightBelow⟩

/-- The meaning of a double. -/
def Decoded.ofFloat (x : Float) : Decoded :=
  .ofBits x.toBits.toNat

/-- The integer that a magnitude is, if it is one. -/
def Binary.toInt? (b : Binary) : Option Int :=
  let magnitude : Option Nat :=
    if 0 ≤ b.exponent then some (b.significand * Nat.pow 2 b.exponent.toNat)
    else if b.significand % Nat.pow 2 (-b.exponent).toNat = 0 then
      some (b.significand / Nat.pow 2 (-b.exponent).toNat)
    else none
  magnitude.map fun n => if b.negative then -(n : Int) else n

/-- The integer that a double is, if it is one. Both zeros are the integer zero. -/
def wholeNumber? (x : Float) : Option Int :=
  match Decoded.ofFloat x with
  | .finite b => b.toInt?
  | _ => none

end CooperativeLisp

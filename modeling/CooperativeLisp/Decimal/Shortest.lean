import CooperativeLisp.Decimal.Binary

/-!
The fewest decimal digits that still name a double. The reals that round to a double form an
interval; of the grids of multiples of `10 ^ p` the coarsest one with a point in that interval is
taken, and on it the point nearest to the double.
-/

namespace CooperativeLisp

/-- The decimal `significand · 10 ^ exponent`. -/
structure Decimal where
  significand : Nat
  exponent : Int
deriving DecidableEq, Repr

/-- Which of two equally near decimals is taken. -/
inductive Tie where
  | up
  | even
deriving DecidableEq, Repr

namespace Shortest

/-- The point `c · 10 ^ p` of a grid nearest to `b` among those that round to `b`, given as `c`.
All reals are compared after multiplication by `4 · 2 ^ max(-exponent, 0) · 10 ^ max(-p, 0)`,
which makes them integers. -/
def nearestOn (tie : Tie) (b : Binary) (p : Int) : Option Nat :=
  let scale := Nat.pow 2 b.exponent.toNat * Nat.pow 10 (-p).toNat
  let unit := 4 * (Nat.pow 2 (-b.exponent).toNat * Nat.pow 10 p.toNat)
  let value := 4 * b.significand * scale
  let low := (4 * b.significand - (if b.tightBelow then 1 else 2)) * scale
  let high := (4 * b.significand + 2) * scale
  let admits (c : Nat) : Bool :=
    if b.significand % 2 = 0 then low ≤ c * unit && c * unit ≤ high
    else low < c * unit && c * unit < high
  let below := value / unit
  let above := below + 1
  let gapBelow := value - below * unit
  let gapAbove := above * unit - value
  match admits below, admits above with
  | false, false => none
  | true, false => some below
  | false, true => some above
  | true, true =>
    if gapBelow < gapAbove then some below
    else if gapAbove < gapBelow then some above
    else match tie with
      | .up => some above
      | .even => some (if below % 2 = 0 then below else above)

/-- Tries the grids `10 ^ p`, `10 ^ (p - 1)`, … in turn. -/
def firstHit (tie : Tie) (b : Binary) : Nat → Int → Decimal
  | 0, p => ⟨0, p⟩
  | n + 1, p =>
    match nearestOn tie b p with
    | some c => ⟨c, p⟩
    | none => firstHit tie b n (p - 1)

/-- A power of ten above the magnitude: `30103 / 100000` is just above the logarithm of two. -/
def gridAbove (b : Binary) : Int :=
  (b.exponent + b.significand.log2 + 1) * 30103 / 100000 + 1

end Shortest

/-- The shortest decimal that rounds to `b`, the nearest of those. Seventeen digits always
suffice, so the search ends within twenty grids below the magnitude. -/
def Binary.shortest (tie : Tie) (b : Binary) : Decimal :=
  if b.significand = 0 then ⟨0, 0⟩ else Shortest.firstHit tie b 20 (Shortest.gridAbove b)

end CooperativeLisp

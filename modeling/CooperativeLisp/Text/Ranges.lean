/-!
Sets of code points as closed intervals in increasing order, and membership by halving.
-/

namespace CooperativeLisp.Text

/-- Whether `n` lies in one of the closed intervals `ranges[lo], …, ranges[hi - 1]`, which are in
increasing order; each round halves the span. -/
def inRanges (ranges : Array (Nat × Nat)) (n lo hi : Nat) : Bool :=
  if _h : lo < hi then
    let middle := (lo + hi) / 2
    match ranges[middle]? with
    | none => false
    | some (first, last) =>
      if n < first then inRanges ranges n lo middle
      else if last < n then inRanges ranges n (middle + 1) hi
      else true
  else false
termination_by hi - lo

/-- Whether the code point of a character lies in one of the intervals. -/
def isWithin (ranges : Array (Nat × Nat)) (c : Char) : Bool :=
  inRanges ranges c.toNat 0 ranges.size

end CooperativeLisp.Text

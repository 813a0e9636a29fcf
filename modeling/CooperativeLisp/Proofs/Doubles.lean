import Mathlib.Algebra.Order.Field.Basic
import Mathlib.Algebra.Order.Field.Power
import Mathlib.Algebra.Order.Ring.Rat
import Mathlib.Tactic.Linarith
import Mathlib.Tactic.NormNum
import Mathlib.Tactic.Ring
import CooperativeLisp.Decimal.Read

/-!
The doubles as numbers, and correct rounding: the nearest double, and of two that are equally near
the one with an even significand. Numbers that are too large, from half a unit above the largest
double on, are infinite. Main statements: rounding to whole units of the right power of two is
rounding to the nearest double, and a number has only one rounding.
-/

namespace CooperativeLisp

/-- The number that a magnitude is. -/
def Binary.value (b : Binary) : ℚ :=
  b.significand * 2 ^ b.exponent

/-- The number that a decimal is. -/
def Decimal.value (d : Decimal) : ℚ :=
  d.significand * 10 ^ d.exponent

/-- Half a unit above the largest double. -/
def Binary.limit : ℚ :=
  2 ^ 1024 - 2 ^ 970

/-! ### The form of a finite double -/

/-- The magnitudes of doubles: 53 bits, with the first one set except at the lowest exponent. -/
structure Binary.Canonical (b : Binary) : Prop where
  bounded : b.significand < 2 ^ 53
  lowest : -1074 ≤ b.exponent
  highest : b.exponent ≤ 971
  normal : 2 ^ 52 ≤ b.significand ∨ b.exponent = -1074
  tight : b.tightBelow = decide (b.significand = 2 ^ 52 ∧ -1074 < b.exponent)

theorem Decoded.ofBits_canonical {bits : Nat} {b : Binary}
    (decoded : Decoded.ofBits bits = .finite b) : b.Canonical := by
  have fraction : bits % 2 ^ 52 < 2 ^ 52 := Nat.mod_lt _ (by decide)
  have exponent : (bits >>> 52) % 2048 < 2048 := Nat.mod_lt _ (by decide)
  simp only [Decoded.ofBits, Nat.pow_eq] at decoded
  split at decoded
  · split at decoded <;> cases decoded
  · split at decoded
    · cases decoded
      exact ⟨by dsimp only; omega, Int.le_refl _, by dsimp only; omega, .inr rfl, by simp⟩
    · cases decoded
      refine ⟨?_, ?_, ?_, .inl ?_, ?_⟩ <;> dsimp only
      · omega
      · omega
      · omega
      · omega
      · rw [Bool.eq_iff_iff]
        simp only [Bool.and_eq_true, beq_iff_eq, decide_eq_true_eq]
        omega

theorem Decoded.ofFloat_canonical {x : Float} {b : Binary}
    (decoded : Decoded.ofFloat x = .finite b) : b.Canonical :=
  ofBits_canonical decoded

/-- Sign, exponent and fraction make up the bits. -/
theorem Decoded.bits_eq {m n : Nat} (small : m < 2 ^ 64) (small' : n < 2 ^ 64)
    (sign : ((m >>> 63) % 2 == 1) = ((n >>> 63) % 2 == 1))
    (exponent : (m >>> 52) % 2048 = (n >>> 52) % 2048) (fraction : m % 2 ^ 52 = n % 2 ^ 52) :
    m = n := by
  have sign : (m >>> 63) % 2 = (n >>> 63) % 2 := by
    rw [Bool.eq_iff_iff, beq_iff_eq, beq_iff_eq] at sign
    omega
  omega

theorem Decoded.finite_bits {bits : Nat} {b : Binary} (decoded : ofBits bits = .finite b) :
    ((bits >>> 63) % 2 == 1) = b.negative ∧ bits % 2 ^ 52 = b.significand % 2 ^ 52 ∧
      (bits >>> 52) % 2048 =
        if b.significand < 2 ^ 52 then 0 else (b.exponent + 1075).toNat := by
  have fraction : bits % 2 ^ 52 < 2 ^ 52 := Nat.mod_lt _ (by decide)
  simp only [Decoded.ofBits, Nat.pow_eq] at decoded
  split at decoded
  · split at decoded <;> cases decoded
  · split at decoded <;> cases decoded <;> refine ⟨rfl, ?_, ?_⟩ <;> dsimp only
    · omega
    · rwa [if_pos fraction]
    · omega
    · rw [if_neg (by omega)]
      omega

theorem Decoded.infinite_bits {bits : Nat} {negative : Bool}
    (decoded : ofBits bits = .infinite negative) :
    ((bits >>> 63) % 2 == 1) = negative ∧ bits % 2 ^ 52 = 0 ∧ (bits >>> 52) % 2048 = 2047 := by
  simp only [Decoded.ofBits, Nat.pow_eq] at decoded
  split at decoded
  · rename_i exponent
    split at decoded <;> cases decoded
    rename_i fraction
    exact ⟨rfl, fraction, exponent⟩
  · split at decoded <;> cases decoded

/-- Two doubles that stand for the same are the same, unless they are no numbers. -/
theorem Decoded.ofFloat_injective {x y : Float} (same : ofFloat x = ofFloat y)
    (number : ofFloat y ≠ .notANumber) : x = y := by
  have bits : x.toBits.toNat = y.toBits.toNat := by
    cases decoded : ofFloat y with
    | finite b =>
      obtain ⟨sign, fraction, exponent⟩ := finite_bits (same.trans decoded)
      obtain ⟨sign', fraction', exponent'⟩ := finite_bits decoded
      exact bits_eq x.toBits.toNat_lt y.toBits.toNat_lt (sign.trans sign'.symm)
        (exponent.trans exponent'.symm) (fraction.trans fraction'.symm)
    | infinite negative =>
      obtain ⟨sign, fraction, exponent⟩ := infinite_bits (same.trans decoded)
      obtain ⟨sign', fraction', exponent'⟩ := infinite_bits decoded
      exact bits_eq x.toBits.toNat_lt y.toBits.toNat_lt (sign.trans sign'.symm)
        (exponent.trans exponent'.symm) (fraction.trans fraction'.symm)
    | notANumber => exact absurd decoded number
  obtain ⟨⟨xBits, _⟩⟩ := x
  obtain ⟨⟨yBits, _⟩⟩ := y
  obtain rfl : xBits = yBits := UInt64.toNat_inj.mp bits
  rfl

/-- A canonical magnitude whose exponent is the lower one has few units of that exponent. -/
theorem Binary.Canonical.exponent_le {a b : Binary} (canonical : a.Canonical)
    (canonical' : b.Canonical) (same : a.value = b.value) : b.exponent ≤ a.exponent := by
  by_contra lower
  have lower : a.exponent < b.exponent := Int.not_le.mp lower
  obtain ⟨k, gap⟩ := Int.le.dest (Int.add_one_le_of_lt lower)
  have normal : 2 ^ 52 ≤ b.significand :=
    canonical'.normal.resolve_right (by have := canonical.lowest; omega)
  have many : a.significand = b.significand * 2 ^ (k + 1) := by
    have unit : (2 : ℚ) ^ a.exponent ≠ 0 := zpow_ne_zero _ (by norm_num)
    have scaled : (a.significand : ℚ) * 2 ^ a.exponent =
        b.significand * 2 ^ (k + 1) * 2 ^ a.exponent := by
      rw [mul_assoc, ← zpow_natCast, ← zpow_add₀ (by norm_num)]
      have : b.exponent = ((k + 1 : ℕ) : ℤ) + a.exponent := by push_cast; omega
      rw [← this]
      exact same
    exact_mod_cast mul_right_cancel₀ unit scaled
  have : b.significand * 2 ≤ b.significand * 2 ^ (k + 1) :=
    Nat.mul_le_mul_left _ (Nat.le_self_pow (Nat.succ_ne_zero k) 2)
  have := canonical.bounded
  omega

/-- A magnitude has one canonical form. -/
theorem Binary.Canonical.unique {a b : Binary} (canonical : a.Canonical)
    (canonical' : b.Canonical) (sign : a.negative = b.negative) (same : a.value = b.value) :
    a = b := by
  have exponent : a.exponent = b.exponent :=
    Int.le_antisymm (canonical'.exponent_le canonical same.symm)
      (canonical.exponent_le canonical' same)
  have significand : a.significand = b.significand := by
    have unit : (2 : ℚ) ^ b.exponent ≠ 0 := zpow_ne_zero _ (by norm_num)
    rw [value, value, exponent] at same
    exact_mod_cast mul_right_cancel₀ unit same
  have tight : a.tightBelow = b.tightBelow := by
    rw [canonical.tight, canonical'.tight, significand, exponent]
  cases a
  cases b
  dsimp only at sign significand exponent tight
  rw [sign, significand, exponent, tight]

/-! ### Rounding to whole units -/

/-- A whole number nearest to another number, the even one of two. -/
structure NearestWhole (r : ℕ) (u : ℚ) : Prop where
  close : |(r : ℚ) - u| ≤ 1 / 2
  even : |(r : ℚ) - u| = 1 / 2 → r % 2 = 0

/-- Among whole numbers the nearest is unique, or else it is even and the other one is odd. -/
theorem NearestWhole.among {r : ℕ} {u : ℚ} (nearest : NearestWhole r u) (k : ℕ) :
    |(r : ℚ) - u| ≤ |(k : ℚ) - u| ∧
      (|(k : ℚ) - u| = |(r : ℚ) - u| → k = r ∨ r % 2 = 0 ∧ k % 2 = 1) := by
  by_cases same : k = r
  · subst same
    exact ⟨le_refl _, fun _ => .inl rfl⟩
  have apart : (1 : ℚ) ≤ |(k : ℚ) - r| := by
    have : (1 : ℤ) ≤ |(k : ℤ) - r| := Int.one_le_abs (sub_ne_zero.mpr (by exact_mod_cast same))
    exact_mod_cast this
  have through : |(k : ℚ) - r| ≤ |(k : ℚ) - u| + |(r : ℚ) - u| := by
    rw [abs_sub_comm (r : ℚ) u]
    exact abs_sub_le _ _ _
  have close := nearest.close
  refine ⟨by linarith, fun equal => .inr ⟨nearest.even (by linarith), ?_⟩⟩
  have even := nearest.even (by linarith)
  have near : |(k : ℤ) - r| ≤ 1 := by
    have : |(k : ℚ) - r| ≤ 1 := by linarith
    exact_mod_cast this
  have := abs_le.mp near
  omega

/-- So many units of `2 ^ e` fit a significand, and fill it unless the exponent is the lowest. -/
structure InUnits (u : ℚ) (e : ℤ) : Prop where
  nonneg : 0 ≤ u
  small : u < 2 ^ 53
  lowest : -1074 ≤ e
  normal : 2 ^ 52 ≤ u ∨ e = -1074

/-- The magnitude of `r` units of `2 ^ e`. A bit too many is moved to the exponent. -/
def Binary.ofUnits (negative : Bool) (r : ℕ) (e : ℤ) : Binary :=
  if r = 2 ^ 53 then ⟨negative, 2 ^ 52, e + 1, true⟩
  else ⟨negative, r, e, decide (r = 2 ^ 52 ∧ -1074 < e)⟩

/-- The double of `r` units of `2 ^ e`, which is infinite if the exponent is too large. -/
def Decoded.ofUnits (negative : Bool) (r : ℕ) (e : ℤ) : Decoded :=
  if (Binary.ofUnits negative r e).exponent ≤ 971 then .finite (Binary.ofUnits negative r e)
  else .infinite negative

section
variable {u : ℚ} {e : ℤ} {r : ℕ} {negative : Bool}

theorem scaled_sub (v u : ℚ) (e : ℤ) : |v * 2 ^ e - u * 2 ^ e| = |v - u| * 2 ^ e := by
  rw [← sub_mul, abs_mul, abs_of_pos (zpow_pos (by norm_num : (0 : ℚ) < 2) e)]

theorem NearestWhole.le (nearest : NearestWhole r u) (units : InUnits u e) : r ≤ 2 ^ 53 := by
  have close := abs_le.mp nearest.close
  have small := units.small
  have : (r : ℚ) < (2 ^ 53 + 1 : ℕ) := by
    push_cast
    linarith [close.2]
  exact Nat.le_of_lt_succ (by exact_mod_cast this)

theorem NearestWhole.normal (nearest : NearestWhole r u) (units : InUnits u e) :
    2 ^ 52 ≤ r ∨ e = -1074 := by
  refine units.normal.imp_left fun filled => ?_
  have close := abs_le.mp nearest.close
  have : ((2 ^ 52 : ℕ) : ℚ) < (r + 1 : ℕ) := by
    push_cast
    linarith [close.1]
  exact Nat.le_of_lt_succ (by exact_mod_cast this)

theorem Binary.ofUnits_value : (ofUnits negative r e).value = r * 2 ^ e := by
  unfold ofUnits
  split
  · rename_i carry
    have : (2 : ℚ) ^ (e + 1) = 2 ^ e * 2 := zpow_add_one₀ (by norm_num) e
    rw [carry, value, this]
    push_cast
    ring
  · rfl

theorem Binary.ofUnits_even (even : r % 2 = 0) : (ofUnits negative r e).significand % 2 = 0 := by
  unfold ofUnits
  split
  · exact (by decide : 2 ^ 52 % 2 = 0)
  · exact even

theorem Binary.ofUnits_canonical (units : InUnits u e) (nearest : NearestWhole r u)
    (highest : (ofUnits negative r e).exponent ≤ 971) : (ofUnits negative r e).Canonical := by
  have most := nearest.le units
  have lowest := units.lowest
  unfold ofUnits at highest ⊢
  split at highest
  · rename_i carry
    rw [if_pos carry]
    exact ⟨(by decide : 2 ^ 52 < 2 ^ 53), by dsimp only; omega, highest, .inl (Nat.le_refl _),
      (decide_eq_true ⟨rfl, by dsimp only; omega⟩).symm⟩
  · rename_i fits
    rw [if_neg fits]
    exact ⟨Nat.lt_of_le_of_ne most fits, lowest, highest, nearest.normal units, rfl⟩

/-- Rounding to whole units is rounding to the nearest of all magnitudes. -/
theorem NearestWhole.among_doubles (units : InUnits u e) (nearest : NearestWhole r u) {c : Binary}
    (canonical : c.Canonical) :
    |r * 2 ^ e - u * 2 ^ e| ≤ |c.value - u * 2 ^ e| ∧
      (|c.value - u * 2 ^ e| = |r * 2 ^ e - u * 2 ^ e| →
        c.value = r * 2 ^ e ∨ r % 2 = 0 ∧ c.significand % 2 = 1) := by
  have unit : (0 : ℚ) < 2 ^ e := zpow_pos (by norm_num) e
  rcases lt_or_ge c.exponent e with below | above
  · have filled : 2 ^ 52 ≤ u :=
      units.normal.resolve_right (by have := canonical.lowest; omega)
    have small : c.value < 2 ^ 52 * 2 ^ e := by
      have bounded : (c.significand : ℚ) < 2 ^ 53 := by exact_mod_cast canonical.bounded
      have scale : (0 : ℚ) < 2 ^ c.exponent := zpow_pos (by norm_num) _
      have next : (2 : ℚ) ^ (c.exponent + 1) ≤ 2 ^ e :=
        zpow_le_zpow_right₀ (by norm_num) (Int.add_one_le_of_lt below)
      rw [zpow_add_one₀ (by norm_num)] at next
      calc c.value < 2 ^ 53 * 2 ^ c.exponent := mul_lt_mul_of_pos_right bounded scale
        _ = 2 ^ 52 * (2 ^ c.exponent * 2) := by ring
        _ ≤ 2 ^ 52 * 2 ^ e := mul_le_mul_of_nonneg_left next (by norm_num)
    have close : |(r : ℚ) - u| ≤ |2 ^ 52 - u| := by exact_mod_cast (nearest.among (2 ^ 52)).1
    rw [abs_of_nonpos (by linarith : (2 : ℚ) ^ 52 - u ≤ 0)] at close
    have scaled := mul_le_mul_of_nonneg_right close unit.le
    have larger : u * 2 ^ e - c.value ≤ |c.value - u * 2 ^ e| := by
      rw [abs_sub_comm]
      exact le_abs_self _
    have strict : |r * 2 ^ e - u * 2 ^ e| < |c.value - u * 2 ^ e| := by
      rw [scaled_sub]
      linarith
    exact ⟨strict.le, fun equal => absurd equal strict.ne'⟩
  · obtain ⟨k, gap⟩ := Int.le.dest above
    have whole : c.value = ((c.significand * 2 ^ k : ℕ) : ℚ) * 2 ^ e := by
      rw [Binary.value, ← gap, Int.add_comm, zpow_add₀ (by norm_num), zpow_natCast]
      push_cast
      ring
    obtain ⟨close, ties⟩ := nearest.among (c.significand * 2 ^ k)
    rw [whole, scaled_sub, scaled_sub]
    refine ⟨mul_le_mul_of_nonneg_right close unit.le, fun equal => ?_⟩
    rcases ties (mul_right_cancel₀ unit.ne' equal) with same | ⟨even, odd⟩
    · exact .inl (by rw [same])
    · refine .inr ⟨even, ?_⟩
      -- an odd number of units leaves no room for a higher exponent
      cases k with
      | zero => simpa using odd
      | succ k =>
        rw [pow_succ, ← mul_assoc] at odd
        omega

theorem Binary.limit_eq : Binary.limit = (2 ^ 54 - 1) * 2 ^ (970 : ℤ) := by
  have split : (2 : ℚ) ^ 1024 = 2 ^ 54 * 2 ^ 970 := by rw [← pow_add]
  have same : (2 : ℚ) ^ (970 : ℤ) = 2 ^ 970 := zpow_natCast 2 970
  rw [limit, split, same, sub_mul, one_mul]

theorem InUnits.below_limit (units : InUnits u e) (nearest : NearestWhole r u)
    (highest : (Binary.ofUnits negative r e).exponent ≤ 971) : u * 2 ^ e < Binary.limit := by
  have small := units.small
  by_cases last : e = 971
  · subst last
    have fits : r ≠ 2 ^ 53 := by
      rintro rfl
      simp [Binary.ofUnits] at highest
    have most : r + 1 ≤ 2 ^ 53 := Nat.lt_of_le_of_ne (nearest.le units) fits
    have most' : (r : ℚ) + 1 ≤ 2 ^ 53 := by exact_mod_cast most
    have close := abs_le.mp nearest.close
    -- a tie would go to `2 ^ 53 - 1`, which is odd
    have strict : u ≠ 2 ^ 53 - 1 / 2 := by
      intro tie
      have even := nearest.even (by rw [abs_of_nonpos] <;> linarith [close.1])
      have least : ((2 ^ 53 : ℕ) : ℚ) ≤ (r + 1 : ℕ) := by
        push_cast
        linarith [close.1]
      have least : 2 ^ 53 ≤ r + 1 := by exact_mod_cast least
      omega
    have below : u < 2 ^ 53 - 1 / 2 := lt_of_le_of_ne (by linarith [close.1]) strict
    have unit : (0 : ℚ) < 2 ^ (970 : ℤ) := zpow_pos (by norm_num) _
    calc u * 2 ^ (971 : ℤ) = u * 2 * 2 ^ (970 : ℤ) := by
          rw [show (971 : ℤ) = 970 + 1 from rfl, zpow_add_one₀ (by norm_num)]
          ring
      _ < (2 ^ 54 - 1) * 2 ^ (970 : ℤ) := mul_lt_mul_of_pos_right (by linarith) unit
      _ = Binary.limit := Binary.limit_eq.symm
  · have lower : e ≤ 970 := by
      have : e ≤ (Binary.ofUnits negative r e).exponent := by
        unfold Binary.ofUnits
        split <;> dsimp only <;> omega
      omega
    have scale : (2 : ℚ) ^ e ≤ 2 ^ (970 : ℤ) := zpow_le_zpow_right₀ (by norm_num) lower
    calc u * 2 ^ e < 2 ^ 53 * 2 ^ e := mul_lt_mul_of_pos_right small (zpow_pos (by norm_num) _)
      _ ≤ 2 ^ 53 * 2 ^ (970 : ℤ) := mul_le_mul_of_nonneg_left scale (by norm_num)
      _ ≤ (2 ^ 54 - 1) * 2 ^ (970 : ℤ) :=
        mul_le_mul_of_nonneg_right (by norm_num) (zpow_nonneg (by norm_num) _)
      _ = Binary.limit := Binary.limit_eq.symm

theorem InUnits.beyond_limit (units : InUnits u e) (nearest : NearestWhole r u)
    (highest : ¬ (Binary.ofUnits negative r e).exponent ≤ 971) : Binary.limit ≤ u * 2 ^ e := by
  unfold Binary.ofUnits at highest
  split at highest <;> dsimp only at highest
  · rename_i carry
    have close := (abs_le.mp nearest.close).2
    rw [carry, Nat.cast_pow, Nat.cast_ofNat] at close
    have scale : (2 : ℚ) ^ (970 + 1 : ℤ) ≤ 2 ^ e := zpow_le_zpow_right₀ (by norm_num) (by omega)
    rw [zpow_add_one₀ (by norm_num)] at scale
    calc Binary.limit = (2 ^ 53 - 1 / 2) * (2 ^ (970 : ℤ) * 2) := by
          rw [Binary.limit_eq]
          ring
      _ ≤ u * 2 ^ e :=
        mul_le_mul (by linarith) scale
          (mul_nonneg (zpow_nonneg (by norm_num) _) (by norm_num)) units.nonneg
  · have filled : 2 ^ 52 ≤ u := units.normal.resolve_right (by omega)
    have scale : (2 : ℚ) ^ (970 + 2 : ℤ) ≤ 2 ^ e := zpow_le_zpow_right₀ (by norm_num) (by omega)
    rw [zpow_add₀ (by norm_num)] at scale
    calc Binary.limit = (2 ^ 52 - 1 / 4) * (2 ^ (970 : ℤ) * 2 ^ (2 : ℤ)) := by
          rw [Binary.limit_eq, show (2 : ℚ) ^ (2 : ℤ) = 4 by norm_num]
          ring
      _ ≤ u * 2 ^ e :=
        mul_le_mul (by linarith) scale
          (mul_nonneg (zpow_nonneg (by norm_num) _) (by norm_num)) units.nonneg

/-! ### Correct rounding -/

/-- What a double stands for is a number with a sign, correctly rounded. Another magnitude that is
as near as its own is odd. -/
inductive Decoded.Rounds (negative : Bool) (q : ℚ) : Decoded → Prop where
  | finite {b : Binary} (canonical : b.Canonical) (signed : b.negative = negative)
      (below : q < Binary.limit)
      (nearest : ∀ c : Binary, c.Canonical → |b.value - q| ≤ |c.value - q|)
      (even : ∀ c : Binary, c.Canonical → |c.value - q| = |b.value - q| →
        c.value = b.value ∨ b.significand % 2 = 0 ∧ c.significand % 2 = 1) :
      Rounds negative q (.finite b)
  | infinite (beyond : Binary.limit ≤ q) : Rounds negative q (.infinite negative)

theorem Decoded.ofUnits_rounds (negative : Bool) (units : InUnits u e)
    (nearest : NearestWhole r u) : (ofUnits negative r e).Rounds negative (u * 2 ^ e) := by
  unfold ofUnits
  split
  · rename_i highest
    refine .finite (Binary.ofUnits_canonical units nearest highest) ?_
      (units.below_limit nearest highest) ?_ ?_
    · unfold Binary.ofUnits
      split <;> rfl
    · intro c canonical
      rw [Binary.ofUnits_value]
      exact (nearest.among_doubles units canonical).1
    · intro c canonical equal
      rw [Binary.ofUnits_value] at equal ⊢
      exact ((nearest.among_doubles units canonical).2 equal).imp_right
        fun parity => ⟨Binary.ofUnits_even parity.1, parity.2⟩
  · rename_i highest
    exact .infinite (units.beyond_limit nearest highest)

/-- A number has one rounding. -/
theorem Decoded.Rounds.unique {q : ℚ} {d d' : Decoded} (rounds : d.Rounds negative q)
    (rounds' : d'.Rounds negative q) : d = d' := by
  cases rounds with
  | @finite b canonical signed below nearest even =>
    cases rounds' with
    | @finite c canonical' signed' _ nearest' even' =>
      have equal : |c.value - q| = |b.value - q| :=
        le_antisymm (nearest' b canonical) (nearest c canonical')
      have value : b.value = c.value := by
        rcases even c canonical' equal with value | ⟨isEven, -⟩
        · exact value.symm
        · rcases even' b canonical equal.symm with value | ⟨-, isOdd⟩
          · exact value
          · omega
      rw [canonical.unique canonical' (signed.trans signed'.symm) value]
    | infinite beyond => exact absurd beyond (not_le.mpr below)
  | infinite beyond =>
    cases rounds' with
    | finite _ _ below => exact absurd beyond (not_le.mpr below)
    | infinite _ => rfl

theorem Binary.Canonical.below_limit {b : Binary} (canonical : b.Canonical) :
    b.value < Binary.limit := by
  have bounded : (b.significand : ℚ) ≤ 2 ^ 53 - 1 := by
    rw [le_sub_iff_add_le]
    exact_mod_cast canonical.bounded
  have scale : (2 : ℚ) ^ b.exponent ≤ 2 ^ (970 + 1 : ℤ) :=
    zpow_le_zpow_right₀ (by norm_num) canonical.highest
  have unit : (0 : ℚ) < 2 ^ (970 : ℤ) := zpow_pos (by norm_num) _
  rw [zpow_add_one₀ (by norm_num)] at scale
  calc b.value ≤ (2 ^ 53 - 1) * (2 ^ (970 : ℤ) * 2) :=
        mul_le_mul bounded scale (zpow_nonneg (by norm_num) _) (by norm_num)
    _ = (2 ^ 54 - 2) * 2 ^ (970 : ℤ) := by ring
    _ < (2 ^ 54 - 1) * 2 ^ (970 : ℤ) := mul_lt_mul_of_pos_right (by norm_num) unit
    _ = Binary.limit := Binary.limit_eq.symm

/-- A number that is a magnitude is its own rounding. -/
theorem Binary.Canonical.rounds {b : Binary} (canonical : b.Canonical) :
    (Decoded.finite b).Rounds b.negative b.value := by
  have none : |b.value - b.value| = 0 := by rw [sub_self, abs_zero]
  refine .finite canonical rfl canonical.below_limit (fun c _ => ?_) fun c _ same => ?_
  · rw [none]
    exact abs_nonneg _
  · rw [none, abs_eq_zero, sub_eq_zero] at same
    exact .inl same

/-- Numbers of up to 53 bits are magnitudes. -/
theorem Binary.Canonical.of_nat {m : ℕ} (some : 0 < m) (bounded : m < 2 ^ 53) :
    ∃ b : Binary, b.Canonical ∧ b.negative = false ∧ b.value = m := by
  obtain ⟨k, bits⟩ : ∃ k, m.log2 + k = 52 := by
    have : m.log2 < 53 := (Nat.log2_lt some.ne').mpr bounded
    exact ⟨52 - m.log2, by omega⟩
  have least : 2 ^ 52 ≤ m * 2 ^ k := by
    rw [← bits, Nat.pow_add]
    exact Nat.mul_le_mul_right _ (Nat.log2_self_le some.ne')
  have most : m * 2 ^ k < 2 ^ 53 := by
    have : m < 2 ^ (m.log2 + 1) := Nat.lt_log2_self
    calc m * 2 ^ k < 2 ^ (m.log2 + 1) * 2 ^ k :=
          Nat.mul_lt_mul_of_pos_right this (Nat.two_pow_pos k)
      _ = 2 ^ 53 := by rw [← Nat.pow_add]; congr 1; omega
  refine ⟨⟨false, m * 2 ^ k, -k, decide (m * 2 ^ k = 2 ^ 52 ∧ (-1074 : ℤ) < -k)⟩,
    ⟨most, by dsimp only; omega, by dsimp only; omega, .inl least, rfl⟩, rfl, ?_⟩
  rw [value, Nat.cast_mul, Nat.cast_pow, zpow_neg, zpow_natCast, Nat.cast_ofNat,
    mul_inv_cancel_right₀ (by positivity)]

end

end CooperativeLisp

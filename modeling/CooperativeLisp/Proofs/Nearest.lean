import Mathlib.Data.Nat.Cast.Field
import CooperativeLisp.Proofs.Rounding

/-!
Decimals and the doubles they are read as. Main statement: reading a decimal, however many digits
it has and whatever its magnitude, gives the double nearest to it.
-/

namespace CooperativeLisp

open Float.Model Float.Model.UnpackedFloat

/-! ### Operations on doubles -/

/-- The same with the other sign. -/
def Decoded.negated : Decoded → Decoded
  | .notANumber => .notANumber
  | .infinite negative => .infinite (!negative)
  | .finite b => .finite { b with negative := !b.negative }

section
variable {x y : Float} {b c : Binary}

theorem Binary.Canonical.negated (canonical : b.Canonical) :
    Canonical { b with negative := !b.negative } :=
  ⟨canonical.bounded, canonical.lowest, canonical.highest, canonical.normal, canonical.tight⟩

/-- Packing keeps what is in canonical form. -/
theorem Decoded.ofPacked_eq {u : UnpackedFloat}
    (canonical : ∀ b, ofUnpacked u = .finite b → b.Canonical) : ofPacked u = ofUnpacked u := by
  cases u with
  | notANumber => exact (by decide : ofPacked .notANumber = .notANumber)
  | infinity s => exact ofBits_packedInfinity s
  | zero s => exact ofBits_components s (by decide) (by decide)
  | finite s m e pos =>
    have canonical := canonical _ rfl
    exact (ofBits_pack_finite s pos canonical.bounded canonical.lowest canonical.normal).trans
      (if_pos canonical.highest)

theorem Decoded.ofUnpacked_neg (u : UnpackedFloat) : ofUnpacked u.neg = (ofUnpacked u).negated := by
  rcases u with s | _ | s | ⟨s, m, e, pos⟩
  · cases s <;> rfl
  · rfl
  · cases s <;> rfl
  · cases s <;> rfl

theorem Decoded.ofFloat_neg (x : Float) : ofFloat (-x) = (ofFloat x).negated := by
  have negated : ofFloat (-x) = ofPacked x.toModel.unpack.neg := rfl
  have canonical : ∀ b, ofUnpacked x.toModel.unpack.neg = .finite b → b.Canonical := by
    intro b decoded
    rw [ofUnpacked_neg, ← ofFloat_eq] at decoded
    cases original : ofFloat x with
    | notANumber => rw [original] at decoded; exact absurd decoded nofun
    | infinite => rw [original] at decoded; exact absurd decoded nofun
    | finite c =>
      rw [original] at decoded
      cases decoded
      exact (ofFloat_canonical original).negated
  rw [negated, ofPacked_eq canonical, ofUnpacked_neg, ← ofFloat_eq]

theorem Decoded.unpack_eq (decoded : ofFloat x = .finite b) (pos : 0 < b.significand) :
    ∃ s, isMinus s = b.negative ∧
      x.toModel.unpack = .finite s b.significand b.exponent pos := by
  rw [ofFloat_eq] at decoded
  cases unpacked : x.toModel.unpack with
  | notANumber => rw [unpacked] at decoded; cases decoded
  | infinity => rw [unpacked] at decoded; cases decoded
  | zero =>
    rw [unpacked] at decoded
    cases decoded
    exact absurd pos (Nat.lt_irrefl 0)
  | finite s m e =>
    rw [unpacked] at decoded
    cases decoded
    exact ⟨s, rfl, rfl⟩

theorem Decoded.isFinite_iff : x.isFinite = true ↔ ∃ b, ofFloat x = .finite b := by
  show x.toModel.unpack.isFinite = true ↔ _
  rw [ofFloat_eq]
  cases x.toModel.unpack with
  | zero | finite => exact ⟨fun _ => ⟨_, rfl⟩, fun _ => rfl⟩
  | notANumber | infinity => exact ⟨nofun, nofun⟩

theorem isMinus_mul (s s' : Sign) : isMinus (s * s') = (isMinus s != isMinus s') := by
  cases s <;> cases s' <;> rfl

theorem isMinus_div (s s' : Sign) : isMinus (s / s') = (isMinus s != isMinus s') := by
  cases s <;> cases s' <;> rfl

theorem Decoded.ofFloat_mul (decoded : ofFloat x = .finite b) (decoded' : ofFloat y = .finite c)
    (pos : 0 < b.significand) (pos' : 0 < c.significand) :
    (ofFloat (x * y)).Rounds (b.negative != c.negative) (b.value * c.value) := by
  obtain ⟨s, sign, unpacked⟩ := unpack_eq decoded pos
  obtain ⟨s', sign', unpacked'⟩ := unpack_eq decoded' pos'
  have product : ofFloat (x * y) =
      ofPacked (mul .binary64 x.toModel.unpack y.toModel.unpack) := rfl
  have placed : 52 ≤ (b.significand * c.significand).log2 ∨ b.exponent + c.exponent ≤ -1074 := by
    rcases (ofFloat_canonical decoded).normal with filled | lowest
    · exact .inl (le_log2_mul filled pos'.ne')
    · rcases (ofFloat_canonical decoded').normal with filled | lowest'
      · exact .inl (Nat.mul_comm .. ▸ le_log2_mul filled pos.ne')
      · exact .inr (by omega)
  rw [product, unpacked, unpacked', ← sign, ← sign', ← isMinus_mul]
  exact mul_rounds _ _ pos pos' placed

theorem Decoded.ofFloat_div (decoded : ofFloat x = .finite b) (decoded' : ofFloat y = .finite c)
    (pos : 0 < b.significand) (pos' : 0 < c.significand) :
    (ofFloat (x / y)).Rounds (b.negative != c.negative) (b.value / c.value) := by
  obtain ⟨s, sign, unpacked⟩ := unpack_eq decoded pos
  obtain ⟨s', sign', unpacked'⟩ := unpack_eq decoded' pos'
  have quotient : ofFloat (x / y) =
      ofPacked (div .binary64 x.toModel.unpack y.toModel.unpack) := rfl
  rw [quotient, unpacked, unpacked', ← sign, ← sign', ← isMinus_div]
  exact div_rounds _ _ pos pos'

theorem Decoded.ofFloat_toFloat (n : UInt64) : (ofFloat n.toFloat).Rounds false n.toNat :=
  ofNat_rounds n.toNat

theorem Binary.significand_pos (positive : 0 < b.value) : 0 < b.significand := by
  rcases Nat.eq_zero_or_pos b.significand with zero | pos
  · rw [Binary.value, zero, Nat.cast_zero, zero_mul] at positive
    exact absurd positive (lt_irrefl 0)
  · exact pos

/-- Whole numbers of up to 53 bits are converted exactly. -/
theorem Decoded.ofFloat_small {m : ℕ} (pos : 0 < m) (bounded : m < 2 ^ 53) :
    ∃ b, ofFloat m.toUInt64.toFloat = .finite b ∧ b.negative = false ∧ b.value = m := by
  obtain ⟨b, canonical, sign, value⟩ := Binary.Canonical.of_nat pos bounded
  have kept : m.toUInt64.toNat = m := UInt64.toNat_ofNat_of_lt' (by
    rw [UInt64.size]
    omega)
  have rounds := ofFloat_toFloat m.toUInt64
  rw [kept] at rounds
  refine ⟨b, rounds.unique ?_, sign, value⟩
  rw [← sign, ← value]
  exact canonical.rounds

/-! ### Powers of ten -/

/-- A magnitude is an integer just when its value is a whole number. -/
theorem Binary.toInt?_eq_some {n : ℤ} : b.toInt? = some n ↔
    ∃ k : ℕ, b.value = k ∧ n = if b.negative then -(k : ℤ) else k := by
  obtain ⟨negative, m, e, tight⟩ := b
  have signed (k : ℕ) (same : (⟨negative, m, e, tight⟩ : Binary).value = k) :
      some (if negative then -(k : ℤ) else k) = some n ↔
        ∃ k : ℕ, (⟨negative, m, e, tight⟩ : Binary).value = k ∧
          n = if negative then -(k : ℤ) else k := by
    rw [Option.some_inj]
    constructor
    · rintro rfl
      exact ⟨k, same, rfl⟩
    · rintro ⟨k', same', rfl⟩
      obtain rfl : k = k' := by exact_mod_cast same.symm.trans same'
      rfl
  by_cases above : 0 ≤ e
  · obtain ⟨j, rfl⟩ := Int.eq_ofNat_of_zero_le above
    simp only [toInt?, if_pos above, Int.toNat_natCast, Nat.pow_eq]
    refine signed _ ?_
    rw [value, zpow_natCast]
    push_cast
    rfl
  · obtain ⟨j, below⟩ : ∃ j : ℕ, e = -j := ⟨(-e).toNat, by omega⟩
    subst below
    have unit : ((2 ^ j : ℕ) : ℚ) ≠ 0 := by positivity
    have scaled : (⟨negative, m, -j, tight⟩ : Binary).value = m / (2 ^ j : ℕ) := by
      rw [value, zpow_neg, zpow_natCast, div_eq_mul_inv]
      push_cast
      rfl
    simp only [toInt?, if_neg above, Int.neg_neg, Int.toNat_natCast, Nat.pow_eq]
    by_cases divides : m % 2 ^ j = 0
    · rw [if_pos divides]
      refine signed _ ?_
      rw [scaled, Nat.cast_div_charZero (Nat.dvd_of_mod_eq_zero divides)]
    · rw [if_neg divides]
      refine ⟨fun none => absurd none.symm (Option.some_ne_none n), ?_⟩
      rintro ⟨k, same, -⟩
      rw [scaled, div_eq_iff unit] at same
      have whole : m = k * 2 ^ j := by exact_mod_cast same
      exact absurd (whole ▸ Nat.mul_mod_left k (2 ^ j)) divides

theorem Decoded.of_wholeNumber? {n : ℤ} (whole : wholeNumber? x = some n) :
    ∃ b, ofFloat x = .finite b ∧ b.toInt? = some n := by
  unfold wholeNumber? at whole
  split at whole
  · rename_i b decoded
    exact ⟨b, decoded, whole⟩
  · exact absurd whole nofun

theorem Decoded.ofFloat_powerOfTen {e : ℕ} (small : e < 23) :
    ∃ b, ofFloat (Float.exactlyRepresentablePowersOfTen[e]) = .finite b ∧
      b.negative = false ∧ b.value = 10 ^ e := by
  have whole : wholeNumber? (Float.exactlyRepresentablePowersOfTen[e]) =
      some ((10 ^ e : ℕ) : ℤ) := by
    revert e
    decide
  obtain ⟨b, decoded, integer⟩ := of_wholeNumber? whole
  obtain ⟨k, value, same⟩ := Binary.toInt?_eq_some.mp integer
  have positive : 0 < 10 ^ e := Nat.pow_pos (by decide)
  cases sign : b.negative with
  | true =>
    rw [sign, if_pos rfl] at same
    omega
  | false =>
    rw [sign, if_neg Bool.false_ne_true] at same
    obtain rfl : 10 ^ e = k := by exact_mod_cast same
    exact ⟨b, decoded, sign, by rw [value]; push_cast; rfl⟩

/-- Scaling by a power of ten that is not too large is rounded once. -/
theorem ofScientific_rounds {m : ℕ} {e : ℤ} (pos : 0 < m) (above : -(2048 + (m.log2 : ℤ)) ≤ e)
    (below : e ≤ 2048) :
    (Decoded.ofPacked (ofScientific .binary64 m e)).Rounds false (m * 10 ^ e) := by
  have positive (k : ℕ) : 0 < 10 ^ k := Nat.pow_pos (by decide)
  have shifted : 0 < m <<< 53 := by
    rw [Nat.shiftLeft_eq]
    exact Nat.mul_pos pos (Nat.two_pow_pos 53)
  have large : ¬ e > 2 ^ (11 : ℕ) := by omega
  have small : ¬ e < -((2 ^ (11 : ℕ) : ℤ) + m.log2) := by omega
  by_cases up : 0 ≤ e
  · obtain ⟨k, rfl⟩ := Int.eq_ofNat_of_zero_le up
    have scaled : ofScientific .binary64 m k =
        mul .binary64 (.finite .positive (m <<< 53) (-53) shifted)
          (.finite .positive (10 ^ k) 0 (positive k)) := by
      rw [UnpackedFloat.ofScientific, dif_neg pos.ne', if_neg large, if_neg small, if_pos up]
      rfl
    have enough : 52 ≤ (m <<< 53 * 10 ^ k).log2 := by
      refine le_log2_mul ?_ (positive k).ne'
      rw [Nat.shiftLeft_eq]
      omega
    have rounds := mul_rounds .positive .positive (e := -53) (f := 0) shifted (positive k)
      (.inl enough)
    have value : ((m <<< 53 : ℕ) : ℚ) * 2 ^ (-53 : ℤ) * ((10 ^ k : ℕ) * 2 ^ (0 : ℤ)) =
        m * 10 ^ (k : ℤ) := by
      have unit : ((2 ^ 53 : ℕ) : ℚ) * 2 ^ (-53 : ℤ) = 1 := by norm_num
      rw [Nat.shiftLeft_eq, Nat.cast_mul, mul_assoc (m : ℚ), unit, zpow_zero, mul_one, mul_one,
        zpow_natCast]
      push_cast
      rfl
    rw [scaled, ← value]
    exact rounds
  · have scaled : ofScientific .binary64 m e =
        div .binary64 (.finite .positive m 0 pos)
          (.finite .positive (10 ^ (-e).toNat) 0 (positive _)) := by
      rw [UnpackedFloat.ofScientific, dif_neg pos.ne', if_neg large, if_neg small, if_neg up]
    have rounds := div_rounds .positive .positive (e := 0) (f := 0) pos (positive (-e).toNat)
    have value : (m : ℚ) * 2 ^ (0 : ℤ) / ((10 ^ (-e).toNat : ℕ) * 2 ^ (0 : ℤ)) = m * 10 ^ e := by
      obtain ⟨k, power⟩ : ∃ k, (-e).toNat = k := ⟨_, rfl⟩
      have below : e = -(k : ℤ) := by omega
      rw [power, below, zpow_zero, mul_one, mul_one, zpow_neg, zpow_natCast, div_eq_mul_inv]
      push_cast
      rfl
    rw [scaled, ← value]
    exact rounds

/-- The parts of a literal that takes the shortcut are doubles themselves. -/
theorem Decoded.ofFloat_parts {m n : ℕ} (pos : 0 < m) (bounded : m < 2 ^ 53) (small : n < 23) :
    ∃ b c, ofFloat m.toUInt64.toFloat = .finite b ∧
      ofFloat (Float.exactlyRepresentablePowersOfTen[n]) = .finite c ∧
      0 < b.significand ∧ 0 < c.significand ∧ (b.negative != c.negative) = false ∧
      b.value = m ∧ c.value = 10 ^ n := by
  obtain ⟨b, decoded, sign, value⟩ := ofFloat_small pos bounded
  obtain ⟨c, decoded', sign', value'⟩ := ofFloat_powerOfTen small
  refine ⟨b, c, decoded, decoded', Binary.significand_pos ?_, Binary.significand_pos ?_, ?_,
    value, value'⟩
  · rw [value]
    exact_mod_cast pos
  · rw [value']
    positivity
  · rw [sign, sign']
    rfl

theorem Decoded.ofFloat_scaledUp {m n : ℕ} (pos : 0 < m) (small : n ≤ 2048) :
    (ofFloat (Float.ofScientific m false n)).Rounds false (m * 10 ^ n) := by
  unfold Float.ofScientific
  by_cases short : m < 2 ^ 53 ∧ n ≤ 22
  · obtain ⟨b, c, decoded, decoded', positive, positive', sign, value, value'⟩ :=
      ofFloat_parts pos short.1 (Nat.lt_succ_of_le short.2)
    have rounds := ofFloat_mul decoded decoded' positive positive'
    rw [sign, value, value'] at rounds
    rw [dif_pos short]
    exact rounds
  · have rounds := ofScientific_rounds (e := n) pos (by omega) (by omega)
    rw [zpow_natCast] at rounds
    rw [dif_neg short]
    exact rounds

theorem Decoded.ofFloat_scaledDown {m n : ℕ} (pos : 0 < m) (small : n ≤ 2048 + m.log2) :
    (ofFloat (Float.ofScientific m true n)).Rounds false (m / 10 ^ n) := by
  unfold Float.ofScientific
  by_cases short : m < 2 ^ 53 ∧ n ≤ 22
  · obtain ⟨b, c, decoded, decoded', positive, positive', sign, value, value'⟩ :=
      ofFloat_parts pos short.1 (Nat.lt_succ_of_le short.2)
    have rounds := ofFloat_div decoded decoded' positive positive'
    rw [sign, value, value'] at rounds
    rw [dif_pos short]
    exact rounds
  · have rounds := ofScientific_rounds (e := -(n : ℤ)) pos (by omega) (by omega)
    have negated : Int.negOfNat n = -(n : ℤ) := Int.negOfNat_eq
    rw [zpow_neg, zpow_natCast, ← div_eq_mul_inv, ← negated] at rounds
    rw [dif_neg short]
    exact rounds

end

/-! ### Reading decimals -/

section
variable {d : Decimal}

theorem Decimal.digits_length_pos (d : Decimal) : 0 < d.digits.length :=
  Nat.length_toDigits_pos

theorem Decimal.lt_of_digits (d : Decimal) : d.significand < 10 ^ d.digits.length :=
  (Nat.length_toDigits_le_iff (by decide) d.digits_length_pos).mp (Nat.le_refl _)

theorem Decimal.le_of_digits (pos : 0 < d.significand) :
    10 ^ (d.digits.length - 1) ≤ d.significand := by
  rcases Nat.eq_zero_or_pos (d.digits.length - 1) with one | more
  · rw [one]
    exact pos
  · by_contra less
    have := (Nat.length_toDigits_le_iff (by decide) more).mpr (Nat.not_le.mp less)
    have := d.digits_length_pos
    exact absurd ‹(Nat.toDigits 10 d.significand).length ≤ _› (by
      show ¬ d.digits.length ≤ _
      omega)

/-- The magnitude of a decimal is that of its first digit. -/
theorem Decimal.value_bounds (pos : 0 < d.significand) :
    (10 : ℚ) ^ d.magnitude ≤ d.value ∧ d.value < 10 ^ (d.magnitude + 1) := by
  have scale : (0 : ℚ) < 10 ^ d.exponent := zpow_pos (by norm_num) _
  have positive := d.digits_length_pos
  have least : (10 : ℚ) ^ (d.digits.length - 1) ≤ d.significand := by
    exact_mod_cast Decimal.le_of_digits pos
  have most : (d.significand : ℚ) < 10 ^ d.digits.length := by exact_mod_cast d.lt_of_digits
  have lower : d.magnitude = ((d.digits.length - 1 : ℕ) : ℤ) + d.exponent := by
    rw [magnitude]
    omega
  have upper : d.magnitude + 1 = (d.digits.length : ℤ) + d.exponent := by
    rw [magnitude]
    omega
  rw [upper, lower, zpow_add₀ (by norm_num), zpow_add₀ (by norm_num), zpow_natCast, zpow_natCast]
  exact ⟨mul_le_mul_of_nonneg_right least scale.le, mul_lt_mul_of_pos_right most scale⟩

theorem ten_le_two {k : ℕ} : (2 : ℚ) ^ (3 * k) ≤ 10 ^ k := by
  rw [pow_mul]
  exact pow_le_pow_left₀ (by norm_num) (by norm_num) k

theorem Binary.limit_le : Binary.limit ≤ 10 ^ (400 : ℤ) := by
  have scale : (10 : ℚ) ^ (400 : ℤ) = 10 ^ 400 := zpow_natCast 10 400
  rw [scale]
  calc Binary.limit ≤ 2 ^ 1024 := sub_le_self _ (pow_nonneg (by norm_num) _)
    _ ≤ 2 ^ (3 * 400) := pow_le_pow_right₀ (by norm_num) (by norm_num)
    _ ≤ 10 ^ 400 := ten_le_two

theorem small_of_lt {q : ℚ} (below : q < 10 ^ (-400 : ℤ)) : q * 2 ^ (1074 : ℤ) ≤ 1 / 2 := by
  have scale : (10 : ℚ) ^ (-400 : ℤ) = (10 ^ 400)⁻¹ := zpow_neg_coe_of_pos 10 (by norm_num)
  have unit : (2 : ℚ) ^ (1074 : ℤ) = 2 ^ 1074 := zpow_natCast 2 1074
  have enough : (2 : ℚ) ^ 1074 * 2 ≤ 10 ^ 400 :=
    calc (2 : ℚ) ^ 1074 * 2 = 2 ^ (1074 + 1) := (pow_succ 2 1074).symm
      _ ≤ 2 ^ (3 * 400) := pow_le_pow_right₀ (by norm_num) (by norm_num)
      _ ≤ 10 ^ 400 := ten_le_two
  rw [scale] at below
  rw [unit]
  have positive : (0 : ℚ) < 2 ^ 1074 := pow_pos (by norm_num) _
  have large : (0 : ℚ) < 10 ^ 400 := pow_pos (by norm_num) _
  calc q * 2 ^ 1074 ≤ (10 ^ 400)⁻¹ * 2 ^ 1074 := mul_le_mul_of_nonneg_right below.le positive.le
    _ ≤ 1 / 2 := by
      rw [inv_mul_le_iff₀ large, mul_one_div, le_div_iff₀ (by norm_num)]
      exact enough

theorem Decoded.zero_rounds {q : ℚ} (nonneg : 0 ≤ q) (small : q * 2 ^ (1074 : ℤ) ≤ 1 / 2) :
    (ofFloat 0.0).Rounds false q := by
  have decoded : ofFloat 0.0 = ofPacked (.zero .positive) := by decide
  rw [decoded]
  exact CooperativeLisp.zero_rounds .positive nonneg small

/-- Reading a decimal gives the double nearest to it. -/
theorem Decimal.toFloat_rounds (d : Decimal) :
    (Decoded.ofFloat d.toFloat).Rounds false d.value := by
  unfold Decimal.toFloat
  split
  · rename_i zero
    have value : d.value = 0 := by rw [Decimal.value, zero, Nat.cast_zero, zero_mul]
    rw [value]
    exact Decoded.zero_rounds (le_refl 0) (by norm_num)
  · rename_i nonzero
    have pos : 0 < d.significand := Nat.pos_of_ne_zero nonzero
    obtain ⟨least, most⟩ := Decimal.value_bounds pos
    split
    · rename_i large
      have decoded : Decoded.ofFloat (1.0 / 0.0) = .infinite false := by decide
      rw [decoded]
      refine .infinite (le_trans Binary.limit_le (le_trans ?_ least))
      exact zpow_le_zpow_right₀ (by norm_num) large.le
    · rename_i moderate
      split
      · rename_i tiny
        refine Decoded.zero_rounds (le_trans (zpow_nonneg (by norm_num) _) least) ?_
        exact small_of_lt (lt_of_lt_of_le most (zpow_le_zpow_right₀ (by norm_num) (by omega)))
      · rename_i moderate'
        have short : d.digits.length - 1 ≤ d.significand.log2 := by
          rw [Nat.le_log2 pos.ne']
          exact le_trans (Nat.pow_le_pow_left (by decide) _) (Decimal.le_of_digits pos)
        have positive := d.digits_length_pos
        unfold magnitude at moderate moderate'
        split
        · rename_i up
          obtain ⟨n, exponent⟩ := Int.eq_ofNat_of_zero_le up
          rw [exponent] at moderate
          rw [Decimal.value, exponent, Int.toNat_natCast, zpow_natCast]
          exact Decoded.ofFloat_scaledUp pos (by omega)
        · rename_i down
          obtain ⟨n, exponent⟩ : ∃ n : ℕ, d.exponent = -n := ⟨(-d.exponent).toNat, by omega⟩
          rw [exponent] at moderate'
          rw [Decimal.value, exponent, Int.neg_neg, Int.toNat_natCast, zpow_neg, zpow_natCast,
            ← div_eq_mul_inv]
          exact Decoded.ofFloat_scaledDown pos (by omega)

end

end CooperativeLisp

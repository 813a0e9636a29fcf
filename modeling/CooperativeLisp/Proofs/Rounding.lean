import CooperativeLisp.Proofs.Doubles

/-!
The arithmetic of doubles on their unpacked form, as far as decimals need it. Bits that are shifted
out leave two bits behind, which decide how the rest is rounded. Main statements: quotients and
products of finite doubles are rounded correctly.
-/

namespace CooperativeLisp

open Float.Model Float.Model.UnpackedFloat

/-! ### Truncated numbers -/

/-- A number of units is cut off behind two bits, one for half a unit and one for all that is
less. -/
def Truncates (cut : ExtendedMantissa) (u : ℚ) : Prop :=
  ∃ δ : ℚ, 0 ≤ δ ∧ δ < 1 / 2 ∧ (cut.stickyBit = true ↔ δ ≠ 0) ∧
    u = cut.mantissa + (if cut.roundBit then 1 / 2 else 0) + δ

section
variable {cut : ExtendedMantissa} {u : ℚ} {m n : ℕ}

theorem Truncates.shiftRightOne (truncates : Truncates cut u) :
    Truncates cut.shiftRightOne (u / 2) := by
  obtain ⟨m, half, less⟩ := cut
  obtain ⟨δ, nonneg, small, sticky, rfl⟩ := truncates
  dsimp only at sticky
  have parts : (m : ℚ) = 2 * (m / 2 : ℕ) + (m % 2 : ℕ) := by
    exact_mod_cast (Nat.div_add_mod m 2).symm
  refine ⟨((if half then 1 / 2 else 0) + δ) / 2, ?_, ?_, ?_, ?_⟩
  · cases half <;> simp <;> linarith
  · cases half <;> simp <;> linarith
  · cases half with
    | false => simpa [ExtendedMantissa.shiftRightOne] using sticky
    | true =>
      have : (1 / 2 + δ) / 2 ≠ 0 := by linarith
      simpa [ExtendedMantissa.shiftRightOne] using this
  · show ((m : ℚ) + (if half then 1 / 2 else 0) + δ) / 2 =
      (m / 2 : ℕ) + (if m % 2 != 0 then 1 / 2 else 0) + ((if half then 1 / 2 else 0) + δ) / 2
    generalize (if half then (1 / 2 : ℚ) else 0) = first
    rcases Nat.mod_two_eq_zero_or_one m with even | odd
    · rw [parts, even, if_neg (by decide), Nat.cast_zero]
      ring
    · rw [parts, odd, if_pos (by decide), Nat.cast_one]
      ring

theorem Truncates.shiftRight (truncates : Truncates cut u) (k : ℕ) :
    Truncates (cut >>> k) (u / 2 ^ k) := by
  induction k with
  | zero =>
    rw [pow_zero, div_one]
    exact truncates
  | succ k ih =>
    rw [pow_succ, ← div_div]
    exact ih.shiftRightOne

theorem Truncates.floor (truncates : Truncates cut u) :
    (cut.mantissa : ℚ) ≤ u ∧ u < cut.mantissa + 1 := by
  obtain ⟨δ, nonneg, small, -, rfl⟩ := truncates
  split <;> constructor <;> linarith

/-- The two bits are enough to round to the nearest whole number. -/
theorem Truncates.nearest (truncates : Truncates cut u) :
    NearestWhole cut.roundedMantissa u := by
  obtain ⟨m, half, less⟩ := cut
  obtain ⟨δ, nonneg, small, sticky, rfl⟩ := truncates
  cases half with
  | false =>
    have error : |(m : ℚ) - (m + 0 + δ)| = δ := by
      rw [abs_of_nonpos] <;> linarith
    cases less <;>
      exact ⟨error.trans_le small.le, fun tie => absurd (error.symm.trans tie) small.ne⟩
  | true =>
    cases less with
    | false =>
      obtain rfl : δ = 0 := by simpa using sticky
      have rounded : ExtendedMantissa.roundedMantissa ⟨m, true, false⟩ = m + m % 2 := rfl
      have parity : (m + m % 2) % 2 = 0 := by omega
      have error : |((m + m % 2 : ℕ) : ℚ) - (m + 1 / 2 + 0)| = 1 / 2 := by
        rcases Nat.mod_two_eq_zero_or_one m with even | odd
        · rw [even, abs_of_nonpos] <;> push_cast <;> linarith
        · rw [odd, abs_of_nonneg] <;> push_cast <;> linarith
      rw [rounded]
      exact ⟨error.le, fun _ => parity⟩
    | true =>
      have pos : 0 < δ := lt_of_le_of_ne nonneg (Ne.symm (sticky.mp rfl))
      have error : |((m + 1 : ℕ) : ℚ) - (m + 1 / 2 + δ)| = 1 / 2 - δ := by
        rw [abs_of_nonneg] <;> push_cast <;> linarith
      exact ⟨error.trans_le (by linarith), fun tie => absurd (error.symm.trans tie) (by linarith)⟩

theorem truncates_exact (m : ℕ) : Truncates (.ofMantissaAndAccuracy m .exact) m :=
  ⟨0, le_refl _, by norm_num, by simp [ExtendedMantissa.ofMantissaAndAccuracy], by
    simp [ExtendedMantissa.ofMantissaAndAccuracy]⟩

theorem truncates_fraction (m : ℕ) {num den : ℕ} (proper : num < den) :
    Truncates (.ofMantissaAndAccuracy m (accuracyOfFraction num den)) (m + num / den) := by
  have denominator : (0 : ℚ) < den := by exact_mod_cast Nat.zero_lt_of_lt proper
  unfold accuracyOfFraction
  split
  · rename_i none
    simpa [none] using truncates_exact m
  · rename_i nonzero
    have positive : (0 : ℚ) < num / den :=
      div_pos (by exact_mod_cast Nat.pos_of_ne_zero nonzero) denominator
    have doubled : (num : ℚ) / den = (2 * num : ℕ) / den / 2 := by
      push_cast
      ring
    cases compared : compare (2 * num) den with
    | lt =>
      have less : ((2 * num : ℕ) : ℚ) < den := by exact_mod_cast Nat.compare_eq_lt.mp compared
      refine ⟨num / den, positive.le, ?_, ?_, ?_⟩
      · rw [doubled]
        have := (div_lt_one denominator).mpr less
        linarith
      · simp [ExtendedMantissa.ofMantissaAndAccuracy, positive.ne']
      · simp [ExtendedMantissa.ofMantissaAndAccuracy]
    | eq =>
      have same : ((2 * num : ℕ) : ℚ) = den := by exact_mod_cast Nat.compare_eq_eq.mp compared
      refine ⟨0, le_refl _, by norm_num, by simp [ExtendedMantissa.ofMantissaAndAccuracy], ?_⟩
      rw [doubled, same, div_self denominator.ne']
      simp [ExtendedMantissa.ofMantissaAndAccuracy]
    | gt =>
      have more : (den : ℚ) < (2 * num : ℕ) := by exact_mod_cast Nat.compare_eq_gt.mp compared
      have above : (1 : ℚ) < (2 * num : ℕ) / den := (one_lt_div denominator).mpr more
      have fraction : (num : ℚ) / den < 1 := (div_lt_one denominator).mpr (by exact_mod_cast proper)
      refine ⟨num / den - 1 / 2, ?_, ?_, ?_, ?_⟩
      · rw [doubled]
        linarith
      · linarith
      · have : (num : ℚ) / den - 1 / 2 ≠ 0 := by
          rw [doubled]
          linarith
        simpa [ExtendedMantissa.ofMantissaAndAccuracy] using this
      · simp [ExtendedMantissa.ofMantissaAndAccuracy]

end

/-! ### Rounding an unpacked double -/

/-- The unpacked double of `r` units of `2 ^ e`. -/
def unpackedUnits (s : Sign) (r : ℕ) (e : ℤ) : UnpackedFloat :=
  if zero : r = 0 then .zero s
  else if r = 2 ^ 53 then .finite s (2 ^ 52) (e + 1) (by decide)
  else .finite s r e (Nat.pos_of_ne_zero zero)

section
variable {s : Sign} {m : ℕ} {e : ℤ} {a : Accuracy} {v : ℚ}

theorem unpackedUnits_eq {r : ℕ} (fits : r ≠ 2 ^ 53) : unpackedUnits s r e =
    if zero : r = 0 then .zero s else .finite s r e (Nat.pos_of_ne_zero zero) := by
  by_cases zero : r = 0
  · rw [unpackedUnits, dif_pos zero, dif_pos zero]
  · rw [unpackedUnits, dif_neg zero, dif_neg zero, if_neg fits]

theorem targetExponent_eq (t : ℤ) :
    Format.binary64.targetExponent t = max (t - 53) (-1074) := rfl

theorem shiftToTargetExponent_eq (m : ℕ) (e : ℤ) (a : Accuracy) (k : ℕ)
    (amount : (max ((m.log2 : ℤ) + e - 52) (-1074) - e).toNat = k) :
    shiftToTargetExponent .binary64 m e a =
      (ExtendedMantissa.ofMantissaAndAccuracy m a >>> k, e + k) := by
  have target : Format.binary64.targetExponent (totalExponent m e) =
      max ((m.log2 : ℤ) + e - 52) (-1074) := by
    rw [targetExponent_eq, totalExponent]
    omega
  rw [shiftToTargetExponent, shiftToExponent, target, amount]

/-- Rounding once more moves a bit that is too many to the exponent, and changes nothing else. -/
theorem settle_units {r : ℕ} (most : r ≤ 2 ^ 53) (lowest : -1074 ≤ e) :
    shiftToTargetExponent .binary64 r e .exact =
      if r = 2 ^ 53 then (⟨2 ^ 52, false, false⟩, e + 1) else (⟨r, false, false⟩, e) := by
  split
  · rename_i carry
    subst carry
    exact shiftToTargetExponent_eq (2 ^ 53) e .exact 1 (by rw [Nat.log2_two_pow]; omega)
  · rename_i fits
    have small : r.log2 ≤ 52 := by
      rcases Nat.eq_zero_or_pos r with rfl | pos
      · exact Nat.zero_le _
      · exact Nat.le_of_lt_succ ((Nat.log2_lt pos.ne').mpr (by omega))
    rw [shiftToTargetExponent_eq r e .exact 0 (by omega), Int.natCast_zero, Int.add_zero]
    rfl

/-- What is left after moving a mantissa to its exponent, rounding it, and moving it again. -/
theorem roundWithAccuracy_eq {x y : ExtendedMantissa} {f g : ℤ} (s : Sign)
    (first : shiftToTargetExponent .binary64 m e a = (x, f))
    (second : shiftToTargetExponent .binary64 x.roundedMantissa f .exact = (y, g)) :
    roundWithAccuracy .binary64 s m e a =
      if zero : y.mantissa = 0 then .zero s
      else .finite s y.mantissa g (Nat.pos_of_ne_zero zero) := by
  delta roundWithAccuracy
  rw [first]
  dsimp only
  rw [second]

theorem truncates_floor (truncates : Truncates (.ofMantissaAndAccuracy m a) v) :
    (m : ℚ) ≤ v ∧ v < m + 1 := by
  have same : (ExtendedMantissa.ofMantissaAndAccuracy m a).mantissa = m := by
    cases a with
    | exact => rfl
    | inexact order => cases order <;> rfl
  have floor := truncates.floor
  rwa [same] at floor

/-- A mantissa with enough bits, and what is known to be cut off from it, are rounded to whole
units of the right power of two. -/
theorem roundWithAccuracy_units (s : Sign)
    (truncates : Truncates (.ofMantissaAndAccuracy m a) v) (placed : 52 ≤ m.log2 ∨ e ≤ -1074) :
    ∃ u e₁ r, InUnits u e₁ ∧ NearestWhole r u ∧ v * 2 ^ e = u * 2 ^ e₁ ∧
      roundWithAccuracy .binary64 s m e a = unpackedUnits s r e₁ := by
  obtain ⟨k, amount⟩ : ∃ k, (max ((m.log2 : ℤ) + e - 52) (-1074) - e).toNat = k := ⟨_, rfl⟩
  have cut := truncates.shiftRight k
  obtain ⟨least, most⟩ := truncates_floor truncates
  have scale : (0 : ℚ) < 2 ^ k := by positivity
  have units : InUnits (v / 2 ^ k) (e + k) := by
    refine ⟨div_nonneg (le_trans (Nat.cast_nonneg m) least) scale.le, ?_, by omega, ?_⟩
    · have bits : m + 1 ≤ 2 ^ (53 + k) :=
        le_trans Nat.lt_log2_self (Nat.pow_le_pow_right (by decide) (by omega))
      have bits : (m : ℚ) + 1 ≤ 2 ^ 53 * 2 ^ k := by
        rw [← pow_add]
        exact_mod_cast bits
      rw [div_lt_iff₀ scale]
      linarith
    · refine or_iff_not_imp_right.mpr fun higher => ?_
      have shifted : m.log2 = 52 + k := by omega
      have nonzero : m ≠ 0 := by
        rintro rfl
        rw [Nat.log2_zero] at shifted
        omega
      have bits : 2 ^ 52 * 2 ^ k ≤ m := by
        rw [← Nat.pow_add, ← shifted]
        exact Nat.log2_self_le nonzero
      have bits : (2 : ℚ) ^ 52 * 2 ^ k ≤ m := by exact_mod_cast bits
      rw [le_div_iff₀ scale]
      linarith
  refine ⟨_, _, _, units, cut.nearest, ?_, ?_⟩
  · rw [zpow_add₀ (by norm_num), zpow_natCast]
    rw [mul_comm ((2 : ℚ) ^ e), ← mul_assoc, div_mul_cancel₀ _ scale.ne']
  · have first := shiftToTargetExponent_eq m e a k amount
    have second := settle_units (cut.nearest.le units) units.lowest
    split at second
    · rename_i carry
      rw [roundWithAccuracy_eq s first second, carry]
      rfl
    · rename_i fits
      exact (roundWithAccuracy_eq s first second).trans (unpackedUnits_eq fits).symm

end

/-! ### Packed doubles -/

/-- Whether a sign is a minus. -/
def isMinus : Sign → Bool
  | .negative => true
  | .positive => false

/-- What an unpacked double stands for. -/
def Decoded.ofUnpacked : UnpackedFloat → Decoded
  | .notANumber => .notANumber
  | .infinity s => .infinite (isMinus s)
  | .zero s => .finite ⟨isMinus s, 0, -1074, false⟩
  | .finite s m e _ => .finite ⟨isMinus s, m, e, decide (m = 2 ^ 52 ∧ -1074 < e)⟩

theorem Decoded.ofUnpacked_zero (s : Sign) :
    ofUnpacked (.zero s) = .finite ⟨isMinus s, 0, -1074, false⟩ := rfl

theorem Decoded.ofUnpacked_finite (s : Sign) (m : ℕ) (e : ℤ) (pos : 0 < m) :
    ofUnpacked (.finite s m e pos) =
      .finite ⟨isMinus s, m, e, decide (m = 2 ^ 52 ∧ -1074 < e)⟩ := rfl

theorem isMinus_ofBitVec (b : BitVec 1) : isMinus (.ofBitVec b) = (b.toNat % 2 == 1) := by
  revert b
  decide

theorem unpackMantissa_toNat (bits : BitVec 64) :
    (@unpackMantissa .binary64 bits).toNat = bits.toNat % 2 ^ 52 := by
  simp [unpackMantissa]

theorem unpackExponent_toNat (bits : BitVec 64) :
    (@unpackExponent .binary64 bits).toNat = (bits.toNat >>> 52) % 2048 := by
  simp [unpackExponent]

theorem unpackSign_toNat (bits : BitVec 64) :
    (@unpackSign .binary64 bits).toNat = (bits.toNat >>> 63) % 2 := by
  show (bits.extractLsb 63 63).toNat = _
  simp

theorem implicitBit_toNat (m : BitVec 52) : (1#1 ++ m).toNat = 2 ^ 52 + m.toNat := by
  rw [BitVec.toNat_append, ← Nat.shiftLeft_add_eq_or_of_lt m.isLt]
  rfl

/-- Unpacking takes the bits apart as decoding does. -/
theorem Decoded.ofFloat_eq (x : Float) : ofFloat x = ofUnpacked x.toModel.unpack := by
  obtain ⟨⟨⟨bits⟩, valid⟩⟩ := x
  show ofBits bits.toNat = ofUnpacked (UnpackedFloat.unpack .binary64 bits)
  have mantissa := unpackMantissa_toNat bits
  have exponent := unpackExponent_toNat bits
  have sign : isMinus (.ofBitVec (@unpackSign .binary64 bits)) =
      ((bits.toNat >>> 63) % 2 == 1) := by
    rw [isMinus_ofBitVec, unpackSign_toNat, Nat.mod_mod]
  have whole : @unpackExponent .binary64 bits = -1#11 ↔ (bits.toNat >>> 52) % 2048 = 2047 := by
    rw [← exponent]
    exact BitVec.toNat_inj.symm
  have none : @unpackExponent .binary64 bits = 0#11 ↔ (bits.toNat >>> 52) % 2048 = 0 := by
    rw [← exponent]
    exact BitVec.toNat_inj.symm
  have empty : @unpackMantissa .binary64 bits = 0#52 ↔ bits.toNat % 2 ^ 52 = 0 := by
    rw [← mantissa]
    exact BitVec.toNat_inj.symm
  delta UnpackedFloat.unpack ofBits
  dsimp only [Nat.pow_eq]
  by_cases highest : (bits.toNat >>> 52) % 2048 = 2047
  · rw [if_pos highest, if_pos (whole.mpr highest)]
    by_cases vanishes : bits.toNat % 2 ^ 52 = 0
    · rw [if_pos vanishes, if_pos (empty.mpr vanishes), ← sign]
      rfl
    · rw [if_neg vanishes, if_neg (mt empty.mp vanishes)]
      rfl
  rw [if_neg highest, if_neg (mt whole.mp highest)]
  by_cases atLowest : (bits.toNat >>> 52) % 2048 = 0
  · rw [if_pos atLowest, if_pos (none.mpr atLowest)]
    by_cases vanishes : bits.toNat % 2 ^ 52 = 0
    · rw [dif_pos (empty.mpr vanishes), ofUnpacked_zero, sign, vanishes]
    · rw [dif_neg (mt empty.mp vanishes), ofUnpacked_finite, sign, mantissa, exponent, atLowest]
      have lowest : ((0 : ℕ) : ℤ) - (Format.binary64.exponentBias + (52 : ℕ)) + 1 = -1074 := rfl
      rw [lowest, decide_eq_false (fun both => Int.lt_irrefl _ both.2)]
  · rw [if_neg atLowest, if_neg (mt none.mp atLowest), ofUnpacked_finite, sign,
      implicitBit_toNat, mantissa, exponent, Nat.add_comm]
    have bias : (Format.binary64.exponentBias : ℤ) + (52 : ℕ) = 1075 := rfl
    have tight : (bits.toNat % 2 ^ 52 == 0 && decide (1 < (bits.toNat >>> 52) % 2048)) =
        decide (2 ^ 52 + bits.toNat % 2 ^ 52 = 2 ^ 52 ∧
          (-1074 : ℤ) < ((bits.toNat >>> 52) % 2048 : ℕ) - 1075) := by
      rw [Bool.eq_iff_iff]
      simp only [Bool.and_eq_true, beq_iff_eq, decide_eq_true_eq]
      omega
    rw [bias, tight]

/-! ### Packing -/

section
variable {s : Sign} {m r : ℕ} {e : ℤ}

theorem packComponents_toNat (s : Sign) (exponent : BitVec 11) (mantissa : BitVec 52) :
    (packComponents .binary64 s exponent mantissa).toNat =
      (s.toBitVec.toNat * 2 ^ 11 + exponent.toNat) * 2 ^ 52 + mantissa.toNat := by
  rw [packComponents, BitVec.toNat_append, BitVec.toNat_append,
    ← Nat.shiftLeft_add_eq_or_of_lt mantissa.isLt, ← Nat.shiftLeft_add_eq_or_of_lt exponent.isLt,
    Nat.shiftLeft_eq, Nat.shiftLeft_eq]

/-- Decoding what is packed of parts. -/
theorem Decoded.ofBits_components (s : Sign) {exponent mantissa : ℕ} (small : exponent < 2047)
    (short : mantissa < 2 ^ 52) :
    ofBits (packComponents .binary64 s (.ofNat 11 exponent) (.ofNat 52 mantissa)).toNat =
      .finite (if exponent = 0 then ⟨isMinus s, mantissa, -1074, false⟩
        else ⟨isMinus s, mantissa + 2 ^ 52, (exponent : ℤ) - 1075,
          mantissa == 0 && 1 < exponent⟩) := by
  have sign : s.toBitVec.toNat < 2 := s.toBitVec.isLt
  have minus : isMinus s = (s.toBitVec.toNat == 1) := by cases s <;> rfl
  rw [packComponents_toNat, BitVec.toNat_ofNat, BitVec.toNat_ofNat, Nat.mod_eq_of_lt (by omega),
    Nat.mod_eq_of_lt short, minus]
  generalize s.toBitVec.toNat = n at sign ⊢
  have first : (((n * 2 ^ 11 + exponent) * 2 ^ 52 + mantissa) >>> 63) % 2 = n := by omega
  have middle : (((n * 2 ^ 11 + exponent) * 2 ^ 52 + mantissa) >>> 52) % 2048 = exponent := by
    omega
  have last : ((n * 2 ^ 11 + exponent) * 2 ^ 52 + mantissa) % 2 ^ 52 = mantissa := by omega
  simp only [ofBits, Nat.pow_eq, first, middle, last]
  rw [if_neg small.ne]
  split <;> rfl

theorem Decoded.ofBits_packedInfinity (s : Sign) :
    ofBits (packedInfinity .binary64 s).toNat = .infinite (isMinus s) := by
  cases s <;> decide

theorem Decoded.ofBits_pack_finite (s : Sign) (pos : 0 < m) (bounded : m < 2 ^ 53)
    (lowest : -1074 ≤ e) (normal : 2 ^ 52 ≤ m ∨ e = -1074) :
    ofBits (pack .binary64 (.finite s m e pos)).toNat =
      if e ≤ 971 then .finite ⟨isMinus s, m, e, decide (m = 2 ^ 52 ∧ -1074 < e)⟩
      else .infinite (isMinus s) := by
  obtain ⟨biased, shifted⟩ : ∃ n, (e + Format.binary64.exponentBias + (52 : ℕ)).toNat = n :=
    ⟨_, rfl⟩
  have bias : (Format.binary64.exponentBias : ℤ) = 1023 := rfl
  have value : e = (biased : ℤ) - 1075 := by omega
  have packed : pack .binary64 (.finite s m e pos) =
      if 2 ^ 11 ≤ biased + 1 then packedInfinity .binary64 s
      else if m.log2 + 1 = 53 then packComponents .binary64 s (.ofNat 11 biased) (.ofNat 52 m)
      else packComponents .binary64 s 0#11 (.ofNat 52 m) := by
    rw [← shifted]
    rfl
  rw [packed]
  by_cases highest : e ≤ 971
  · rw [if_neg (by omega), if_pos highest]
    by_cases filled : 2 ^ 52 ≤ m
    · have bits : m.log2 + 1 = 53 :=
        congrArg (· + 1) ((Nat.log2_eq_iff pos.ne').mpr ⟨filled, bounded⟩)
      have implicit : BitVec.ofNat 52 m = .ofNat 52 (m - 2 ^ 52) := by
        apply BitVec.eq_of_toNat_eq
        rw [BitVec.toNat_ofNat, BitVec.toNat_ofNat]
        omega
      have tight : (m - 2 ^ 52 == 0 && decide (1 < biased)) = decide (m = 2 ^ 52 ∧ -1074 < e) := by
        rw [Bool.eq_iff_iff]
        simp only [Bool.and_eq_true, beq_iff_eq, decide_eq_true_eq]
        omega
      rw [if_pos bits, implicit, ofBits_components s (by omega) (by omega), if_neg (by omega),
        tight, Nat.sub_add_cancel filled, ← value]
    · have few : ¬ m.log2 + 1 = 53 := fun bits =>
        filled (((Nat.log2_eq_iff pos.ne').mp (Nat.succ.inj bits)).1)
      have atLowest := normal.resolve_left filled
      have loose : decide (m = 2 ^ 52 ∧ -1074 < e) = false := decide_eq_false (by omega)
      rw [if_neg few, loose, atLowest]
      exact ofBits_components s (by decide) (by omega)
  · rw [if_pos (by omega), if_neg highest, ofBits_packedInfinity]

/-- Packing so many units, whatever they are rounded from. -/
theorem Decoded.ofBits_pack_units (s : Sign) (most : r ≤ 2 ^ 53) (lowest : -1074 ≤ e)
    (normal : 2 ^ 52 ≤ r ∨ e = -1074) :
    ofBits (pack .binary64 (unpackedUnits s r e)).toNat = ofUnits (isMinus s) r e := by
  rw [ofUnits, Binary.ofUnits]
  by_cases carry : r = 2 ^ 53
  · have carried : unpackedUnits s r e = .finite s (2 ^ 52) (e + 1) (by decide) := by
      rw [carry]
      rfl
    rw [carried, if_pos carry, ofBits_pack_finite s _ (by decide) (by omega) (.inl (Nat.le_refl _)),
      decide_eq_true ⟨rfl, by omega⟩]
  · rw [unpackedUnits_eq carry, if_neg carry]
    by_cases zero : r = 0
    · subst zero
      obtain rfl := normal.resolve_left (by decide)
      exact ofBits_components s (by decide) (by decide)
    · rw [dif_neg zero]
      exact ofBits_pack_finite s _ (by omega) lowest normal

/-! ### Arithmetic -/

/-- What an unpacked double is once it is packed. -/
def Decoded.ofPacked (u : UnpackedFloat) : Decoded :=
  .ofBits (pack .binary64 u).toNat

theorem roundWithAccuracy_rounds {a : Accuracy} {v : ℚ} (s : Sign)
    (truncates : Truncates (.ofMantissaAndAccuracy m a) v) (placed : 52 ≤ m.log2 ∨ e ≤ -1074) :
    (Decoded.ofPacked (roundWithAccuracy .binary64 s m e a)).Rounds (isMinus s) (v * 2 ^ e) := by
  obtain ⟨u, e₁, r, units, nearest, same, rounded⟩ := roundWithAccuracy_units s truncates placed
  rw [Decoded.ofPacked, rounded, same,
    Decoded.ofBits_pack_units s (nearest.le units) units.lowest (nearest.normal units)]
  exact Decoded.ofUnits_rounds _ units nearest

theorem le_log2_mul {m n k : ℕ} (large : 2 ^ k ≤ m) (factor : n ≠ 0) : k ≤ (m * n).log2 := by
  have nonzero : m ≠ 0 := by
    rintro rfl
    have := Nat.two_pow_pos k
    omega
  rw [Nat.le_log2 (Nat.mul_ne_zero nonzero factor)]
  exact le_trans large (Nat.le_mul_of_pos_right m (Nat.pos_of_ne_zero factor))

theorem mul_rounds (s s' : Sign) {n : ℕ} {f : ℤ} (pos : 0 < m) (pos' : 0 < n)
    (placed : 52 ≤ (m * n).log2 ∨ e + f ≤ -1074) :
    (Decoded.ofPacked (mul .binary64 (.finite s m e pos) (.finite s' n f pos'))).Rounds
      (isMinus (s * s')) (m * 2 ^ e * (n * 2 ^ f)) := by
  have rounds := roundWithAccuracy_rounds (s * s') (truncates_exact (m * n)) placed
  have value : (m : ℚ) * 2 ^ e * (n * 2 ^ f) = ((m * n : ℕ) : ℚ) * 2 ^ (e + f) := by
    rw [zpow_add₀ (by norm_num)]
    push_cast
    ring
  rw [value]
  exact rounds

theorem shiftLeft_rat (m k : ℕ) : ((m <<< k : ℕ) : ℚ) = m * 2 ^ k := by
  rw [Nat.shiftLeft_eq]
  push_cast
  rfl

/-- The dividend is scaled up until the quotient has enough bits. -/
theorem div_rounds (s s' : Sign) {n : ℕ} {f : ℤ} (pos : 0 < m) (pos' : 0 < n) :
    (Decoded.ofPacked (div .binary64 (.finite s m e pos) (.finite s' n f pos'))).Rounds
      (isMinus (s / s')) (m * 2 ^ e / (n * 2 ^ f)) := by
  obtain ⟨t, target⟩ : ∃ t, min (e - f)
      (Format.binary64.targetExponent (totalExponent m e - totalExponent n f)) = t := ⟨_, rfl⟩
  obtain ⟨k, shift⟩ : ∃ k, (e - f - t).toNat = k := ⟨_, rfl⟩
  have divided : div .binary64 (.finite s m e pos) (.finite s' n f pos') =
      roundWithAccuracy .binary64 (s / s') (m <<< k / n) t
        (accuracyOfFraction (m <<< k % n) n) := by
    rw [← shift, ← target]
    rfl
  have placed : 52 ≤ (m <<< k / n).log2 ∨ t ≤ -1074 := by
    rw [targetExponent_eq, totalExponent, totalExponent] at target
    refine or_iff_not_imp_right.mpr fun higher => ?_
    have bits : n.log2 + 53 ≤ m.log2 + k := by omega
    have large : 2 ^ 52 * n ≤ m <<< k := by
      have least : 2 ^ m.log2 ≤ m := Nat.log2_self_le pos.ne'
      have most : n < 2 ^ (n.log2 + 1) := Nat.lt_log2_self
      calc 2 ^ 52 * n ≤ 2 ^ 52 * 2 ^ (n.log2 + 1) := Nat.mul_le_mul_left _ most.le
        _ = 2 ^ (n.log2 + 53) := by rw [← Nat.pow_add]; congr 1; omega
        _ ≤ 2 ^ (m.log2 + k) := Nat.pow_le_pow_right (by decide) bits
        _ = 2 ^ m.log2 * 2 ^ k := Nat.pow_add ..
        _ ≤ m <<< k := by rw [Nat.shiftLeft_eq]; exact Nat.mul_le_mul_right _ least
    have quotient : 2 ^ 52 ≤ m <<< k / n := (Nat.le_div_iff_mul_le pos').mpr large
    exact (Nat.le_log2 (by have := Nat.two_pow_pos 52; omega)).mpr quotient
  have rounds := roundWithAccuracy_rounds (s / s')
    (truncates_fraction (m <<< k / n) (Nat.mod_lt (m <<< k) pos')) placed
  have whole : ((m <<< k / n : ℕ) : ℚ) + (m <<< k % n : ℕ) / n = m * 2 ^ k / n := by
    have split : ((m <<< k : ℕ) : ℚ) = n * (m <<< k / n : ℕ) + (m <<< k % n : ℕ) := by
      exact_mod_cast (Nat.div_add_mod (m <<< k) n).symm
    have nonzero : (n : ℚ) ≠ 0 := by exact_mod_cast pos'.ne'
    rw [← shiftLeft_rat, split, add_div, mul_div_cancel_left₀ _ nonzero]
  have value : (m : ℚ) * 2 ^ e / (n * 2 ^ f) = m * 2 ^ k / n * 2 ^ t := by
    have exponent : e = k + t + f := by omega
    rw [exponent, zpow_add₀ (by norm_num), zpow_add₀ (by norm_num), zpow_natCast]
    have scale : (2 : ℚ) ^ f ≠ 0 := zpow_ne_zero _ (by norm_num)
    rw [← mul_assoc, mul_div_mul_right _ _ scale]
    ring
  rw [divided, value, ← whole]
  exact rounds

/-- Rounding a whole number of units. -/
theorem round_rounds (s : Sign) (pos : 0 < m) (e : ℤ) :
    (Decoded.ofPacked (round .binary64 s m e)).Rounds (isMinus s) (m * 2 ^ e) := by
  obtain ⟨k, shift⟩ :
      ∃ k, (e - Format.binary64.targetExponent (totalExponent m e)).toNat = k := ⟨_, rfl⟩
  have rounded : round .binary64 s m e =
      roundWithAccuracy .binary64 s (m <<< k) (e - k) .exact := by
    rw [← shift]
    rfl
  have placed : 52 ≤ (m <<< k).log2 ∨ e - k ≤ -1074 := by
    rw [targetExponent_eq, totalExponent] at shift
    refine or_iff_not_imp_right.mpr fun higher => ?_
    have large : 2 ^ 52 ≤ m <<< k := by
      rw [Nat.shiftLeft_eq]
      calc 2 ^ 52 ≤ 2 ^ (m.log2 + k) := Nat.pow_le_pow_right (by decide) (by omega)
        _ = 2 ^ m.log2 * 2 ^ k := Nat.pow_add ..
        _ ≤ m * 2 ^ k := Nat.mul_le_mul_right _ (Nat.log2_self_le pos.ne')
    exact (Nat.le_log2 (by have := Nat.two_pow_pos 52; omega)).mpr large
  have value : (m : ℚ) * 2 ^ e = (m <<< k : ℕ) * 2 ^ (e - k) := by
    rw [shiftLeft_rat, mul_assoc, ← zpow_natCast, ← zpow_add₀ (by norm_num), add_sub_cancel]
  rw [rounded, value]
  exact roundWithAccuracy_rounds s (truncates_exact _) placed

/-- Zero is nearest to every number that is small enough. -/
theorem zero_rounds (s : Sign) {q : ℚ} (nonneg : 0 ≤ q) (small : q * 2 ^ (1074 : ℤ) ≤ 1 / 2) :
    (Decoded.ofPacked (.zero s)).Rounds (isMinus s) q := by
  have scale : (0 : ℚ) < 2 ^ (1074 : ℤ) := zpow_pos (by norm_num) _
  have value : q = q * 2 ^ (1074 : ℤ) * 2 ^ (-1074 : ℤ) := by
    rw [zpow_neg, mul_inv_cancel_right₀ scale.ne']
  have nonneg : 0 ≤ q * 2 ^ (1074 : ℤ) := mul_nonneg nonneg scale.le
  generalize q * 2 ^ (1074 : ℤ) = u at small value nonneg
  have units : InUnits u (-1074) :=
    ⟨nonneg, lt_of_le_of_lt small (by norm_num), le_refl _, .inr rfl⟩
  have nearest : NearestWhole 0 u := by
    refine ⟨?_, fun _ => rfl⟩
    rw [Nat.cast_zero, zero_sub, abs_neg, abs_of_nonneg nonneg]
    exact small
  have packed := Decoded.ofBits_pack_units s (Nat.zero_le _) (le_refl (-1074)) (.inr rfl)
  rw [unpackedUnits, dif_pos rfl] at packed
  rw [Decoded.ofPacked, packed, value]
  exact Decoded.ofUnits_rounds _ units nearest

theorem ofNat_rounds (n : ℕ) : (Decoded.ofPacked (.ofNat .binary64 n)).Rounds false n := by
  rcases Nat.eq_zero_or_pos n with rfl | pos
  · exact zero_rounds .positive (le_refl _) (by norm_num)
  · have rounds := round_rounds .positive pos 0
    rw [zpow_zero, mul_one] at rounds
    have converted : UnpackedFloat.ofNat .binary64 n = round .binary64 .positive n 0 := by
      have positive : compare (n : ℤ) 0 = .gt := Int.compare_eq_gt.mpr (by omega)
      rw [UnpackedFloat.ofNat, UnpackedFloat.ofInt, UnpackedFloat.normalize, positive]
      rfl
    rw [converted]
    exact rounds

end

end CooperativeLisp

import CooperativeLisp.Proofs.Nearest

/-!
The shortest decimal of a double. A point that is found on a grid rounds to the double it was
sought for, and the search reaches a grid that is fine enough before it gives up. Main statement:
the shortest decimal of a double rounds back to it.
-/

namespace CooperativeLisp

/-! ### The interval of a double -/

/-- How far below a magnitude, in units of its last place, decimals still round to it. -/
def Binary.reach (b : Binary) : ℚ :=
  if b.tightBelow then 1 / 4 else 1 / 2

/-- So many units of the last place lie in the interval of a magnitude, with its ends only if the
significand is even. -/
structure Binary.Admits (b : Binary) (u : ℚ) : Prop where
  above : b.significand - b.reach ≤ u
  below : u ≤ b.significand + 1 / 2
  inner : b.significand % 2 = 1 → b.significand - b.reach < u ∧ u < b.significand + 1 / 2

section
variable {b : Binary} {u : ℚ}

/-- The magnitude without its sign. -/
def Binary.unsigned (b : Binary) : Binary :=
  { b with negative := false }

theorem Binary.Canonical.unsigned (canonical : b.Canonical) : b.unsigned.Canonical :=
  ⟨canonical.bounded, canonical.lowest, canonical.highest, canonical.normal, canonical.tight⟩

theorem Binary.Admits.nearest (admits : b.Admits u) (loose : b.tightBelow = false) :
    NearestWhole b.significand u := by
  have reach : b.reach = 1 / 2 := by
    rw [reach, loose]
    rfl
  have above := admits.above
  have below := admits.below
  have inner := admits.inner
  rw [reach] at above inner
  refine ⟨abs_le.mpr ⟨by linarith, by linarith⟩, fun tie => ?_⟩
  by_contra odd
  obtain ⟨above, below⟩ := inner (by omega)
  have strict : |(b.significand : ℚ) - u| < 1 / 2 := abs_lt.mpr ⟨by linarith, by linarith⟩
  exact strict.ne tie

theorem Binary.Canonical.rounds_units (canonical : b.Canonical) (units : InUnits u b.exponent)
    (nearest : NearestWhole b.significand u) :
    (Decoded.finite b.unsigned).Rounds false (u * 2 ^ b.exponent) := by
  have fits : b.significand ≠ 2 ^ 53 := canonical.bounded.ne
  have same : Binary.ofUnits false b.significand b.exponent = b.unsigned := by
    rw [Binary.ofUnits, if_neg fits, ← canonical.tight]
    rfl
  have rounds := Decoded.ofUnits_rounds false units nearest
  rw [Decoded.ofUnits, same] at rounds
  rwa [if_pos (show b.unsigned.exponent ≤ 971 from canonical.highest)] at rounds

/-- What lies in the interval of a double rounds to it. -/
theorem Binary.Admits.rounds (admits : b.Admits u) (canonical : b.Canonical) (nonneg : 0 ≤ u) :
    (Decoded.finite b.unsigned).Rounds false (u * 2 ^ b.exponent) := by
  have above := admits.above
  have below := admits.below
  have small : u < 2 ^ 53 := by
    have bounded : (b.significand : ℚ) + 1 ≤ 2 ^ 53 := by exact_mod_cast canonical.bounded
    linarith
  cases tight : b.tightBelow with
  | false =>
    refine canonical.rounds_units ⟨nonneg, small, canonical.lowest, ?_⟩ (admits.nearest tight)
    refine or_iff_not_imp_right.mpr fun higher => ?_
    have filled := canonical.normal.resolve_right higher
    have notFirst : b.significand ≠ 2 ^ 52 := by
      intro first
      have := canonical.tight
      have := canonical.lowest
      rw [tight, eq_comm, decide_eq_false_iff_not] at *
      omega
    have more : 2 ^ 52 + 1 ≤ b.significand := by omega
    have more : (2 : ℚ) ^ 52 + 1 ≤ b.significand := by exact_mod_cast more
    rw [reach, tight, if_neg Bool.false_ne_true] at above
    linarith
  | true =>
    obtain ⟨first, higher⟩ := of_decide_eq_true (canonical.tight.symm.trans tight)
    have significand : (b.significand : ℚ) = 2 ^ 52 := by rw [first]; norm_num
    rw [reach, tight, if_pos rfl, significand] at above
    rw [significand] at below
    rcases le_or_gt (2 ^ 52) u with filled | less
    · refine canonical.rounds_units ⟨nonneg, small, canonical.lowest, .inl filled⟩ ?_
      refine ⟨abs_le.mpr ⟨?_, ?_⟩, fun _ => first ▸ rfl⟩ <;> linarith
    · -- below a power of two the doubles are twice as dense
      have units : InUnits (2 * u) (b.exponent - 1) :=
        ⟨by linarith, by linarith, by omega, .inl (by linarith)⟩
      have nearest : NearestWhole (2 ^ 53) (2 * u) := by
        refine ⟨abs_le.mpr ⟨?_, ?_⟩, fun _ => by decide⟩ <;> push_cast <;> linarith
      have same : Binary.ofUnits false (2 ^ 53) (b.exponent - 1) = b.unsigned := by
        rw [Binary.ofUnits, if_pos rfl, Int.sub_add_cancel, ← first, ← tight]
        rfl
      have rounds := Decoded.ofUnits_rounds false units nearest
      have value : u * 2 ^ b.exponent = 2 * u * 2 ^ (b.exponent - 1) := by
        have : (2 : ℚ) ^ b.exponent = 2 ^ (b.exponent - 1) * 2 := by
          rw [← zpow_add_one₀ (by norm_num), sub_add_cancel]
        rw [this]
        ring
      rw [Decoded.ofUnits, same, ← value] at rounds
      rwa [if_pos (show b.unsigned.exponent ≤ 971 from canonical.highest)] at rounds

end

/-! ### Points on grids -/

namespace Shortest

/-- What a quarter of the last place is multiplied by to compare it with points of a grid. -/
def scale (b : Binary) (p : ℤ) : ℕ :=
  2 ^ b.exponent.toNat * 10 ^ (-p).toNat

/-- How far the points of a grid are apart after that multiplication. -/
def spacing (b : Binary) (p : ℤ) : ℕ :=
  4 * (2 ^ (-b.exponent).toNat * 10 ^ p.toNat)

/-- The test whether a point of a grid lies in the interval. -/
def admits (b : Binary) (p : ℤ) (c : ℕ) : Bool :=
  let low := (4 * b.significand - (if b.tightBelow then 1 else 2)) * scale b p
  let high := (4 * b.significand + 2) * scale b p
  if b.significand % 2 = 0 then low ≤ c * spacing b p && c * spacing b p ≤ high
  else low < c * spacing b p && c * spacing b p < high

section
variable {tie : Tie} {b : Binary} {p : ℤ} {c : ℕ}

theorem admits_of_nearestOn (hit : nearestOn tie b p = some c) : admits b p c = true := by
  unfold nearestOn at hit
  extract_lets _ unit value _ _ test below above gapBelow gapAbove at hit
  have same : test c = admits b p c := rfl
  rw [← same]
  cases lower : test below <;> cases upper : test above <;> rw [lower, upper] at hit
  · exact absurd hit nofun
  · exact Option.some.inj hit ▸ upper
  · exact Option.some.inj hit ▸ lower
  · have either : c = below ∨ c = above := by
      dsimp only at hit
      split at hit
      · exact .inl (Option.some.inj hit).symm
      · split at hit
        · exact .inr (Option.some.inj hit).symm
        · cases tie with
          | up => exact .inr (Option.some.inj hit).symm
          | even =>
            dsimp only at hit
            split at hit
            · exact .inl (Option.some.inj hit).symm
            · exact .inr (Option.some.inj hit).symm
    rcases either with rfl | rfl
    · exact lower
    · exact upper

/-- The point just below the magnitude is tried. -/
theorem not_admits_of_nearestOn (miss : nearestOn tie b p = none) :
    admits b p (4 * b.significand * scale b p / spacing b p) = false := by
  unfold nearestOn at miss
  extract_lets _ unit value _ _ test below above gapBelow gapAbove at miss
  have same : test below = admits b p (4 * b.significand * scale b p / spacing b p) := rfl
  rw [← same]
  cases lower : test below with
  | false => rfl
  | true =>
    cases upper : test above <;> rw [lower, upper] at miss
    · exact absurd miss nofun
    · dsimp only at miss
      split at miss
      · exact absurd miss nofun
      · split at miss
        · exact absurd miss nofun
        · cases tie <;> exact absurd miss nofun

theorem scale_pos : 0 < scale b p :=
  Nat.mul_pos (Nat.pow_pos (by decide)) (Nat.pow_pos (by decide))

theorem spacing_eq (b : Binary) (p : ℤ) :
    (spacing b p : ℚ) = 10 ^ p / 2 ^ b.exponent * (4 * scale b p) := by
  have power {a : ℚ} (nonzero : a ≠ 0) (z : ℤ) : a ^ (-z).toNat * a ^ z = a ^ z.toNat := by
    rw [← zpow_natCast, ← zpow_natCast, ← zpow_add₀ nonzero]
    congr 1
    omega
  have two := power (a := 2) (by norm_num) b.exponent
  have ten : (10 : ℚ) ^ p * 10 ^ (-p).toNat = 10 ^ p.toNat := by
    rw [← power (by norm_num) p, mul_comm]
  have nonzero : (2 : ℚ) ^ b.exponent ≠ 0 := zpow_ne_zero _ (by norm_num)
  rw [spacing, scale, div_mul_eq_mul_div, eq_div_iff nonzero]
  push_cast
  rw [← two, ← ten]
  ring

/-- Both scales of the test are whole numbers, so it is exact. -/
theorem admits_iff (positive : 0 < b.significand) :
    admits b p c = true ↔ b.Admits (c * (10 ^ p / 2 ^ b.exponent)) := by
  have factor : (0 : ℚ) < 4 * scale b p := mul_pos (by norm_num) (by exact_mod_cast scale_pos)
  have low : (((4 * b.significand - (if b.tightBelow then 1 else 2)) * scale b p : ℕ) : ℚ) =
      (b.significand - b.reach) * (4 * scale b p) := by
    rw [Nat.cast_mul, Nat.cast_sub (by split <;> omega), Binary.reach]
    split <;> push_cast <;> ring
  have high : (((4 * b.significand + 2) * scale b p : ℕ) : ℚ) =
      (b.significand + 1 / 2) * (4 * scale b p) := by
    push_cast
    ring
  have point : ((c * spacing b p : ℕ) : ℚ) =
      c * (10 ^ p / 2 ^ b.exponent) * (4 * scale b p) := by
    rw [Nat.cast_mul, spacing_eq, mul_assoc]
  unfold admits
  dsimp only
  generalize (4 * b.significand - (if b.tightBelow then 1 else 2)) * scale b p = l at low ⊢
  generalize (4 * b.significand + 2) * scale b p = h at high ⊢
  generalize c * spacing b p = n at point ⊢
  generalize c * ((10 : ℚ) ^ p / 2 ^ b.exponent) = u at point ⊢
  have above : l ≤ n ↔ b.significand - b.reach ≤ u := by
    rw [← @Nat.cast_le ℚ, low, point, mul_le_mul_iff_of_pos_right factor]
  have above' : l < n ↔ b.significand - b.reach < u := by
    rw [← @Nat.cast_lt ℚ, low, point, mul_lt_mul_iff_of_pos_right factor]
  have below : n ≤ h ↔ u ≤ b.significand + 1 / 2 := by
    rw [← @Nat.cast_le ℚ, high, point, mul_le_mul_iff_of_pos_right factor]
  have below' : n < h ↔ u < b.significand + 1 / 2 := by
    rw [← @Nat.cast_lt ℚ, high, point, mul_lt_mul_iff_of_pos_right factor]
  split
  · rename_i even
    rw [Bool.and_eq_true, decide_eq_true_eq, decide_eq_true_eq, above, below]
    exact ⟨fun both => ⟨both.1, both.2, fun odd => by omega⟩,
      fun admitted => ⟨admitted.above, admitted.below⟩⟩
  · rename_i odd
    rw [Bool.and_eq_true, decide_eq_true_eq, decide_eq_true_eq, above', below']
    exact ⟨fun both => ⟨both.1.le, both.2.le, fun _ => both⟩,
      fun admitted => admitted.inner (by omega)⟩

theorem spacing_pos : 0 < spacing b p :=
  Nat.mul_pos (by decide) (Nat.mul_pos (Nat.pow_pos (by decide)) (Nat.pow_pos (by decide)))

/-- A grid with points at most a quarter of the last place apart has one in the interval. -/
theorem nearestOn_fine (tie : Tie) (positive : 0 < b.significand) (fine : spacing b p ≤ scale b p) :
    ∃ c, nearestOn tie b p = some c := by
  cases hit : nearestOn tie b p with
  | some c => exact ⟨c, rfl⟩
  | none =>
    have missed := not_admits_of_nearestOn hit
    have scaled := scale_pos (b := b) (p := p)
    have above : (4 * b.significand - (if b.tightBelow then 1 else 2)) * scale b p <
        4 * b.significand * scale b p / spacing b p * spacing b p := by
      have next : 4 * b.significand * scale b p <
          4 * b.significand * scale b p / spacing b p * spacing b p + spacing b p := by
        rw [← Nat.succ_mul]
        exact Nat.lt_mul_of_div_lt (Nat.lt_succ_self _) spacing_pos
      have low : (4 * b.significand - (if b.tightBelow then 1 else 2)) * scale b p ≤
          4 * b.significand * scale b p - scale b p := by
        rw [← Nat.sub_one_mul]
        exact Nat.mul_le_mul_right _ (by split <;> omega)
      have room : scale b p ≤ 4 * b.significand * scale b p :=
        Nat.le_mul_of_pos_left _ (by omega)
      omega
    have below : 4 * b.significand * scale b p / spacing b p * spacing b p <
        (4 * b.significand + 2) * scale b p := by
      rw [Nat.add_mul]
      have := Nat.div_mul_le_self (4 * b.significand * scale b p) (spacing b p)
      omega
    unfold admits at missed
    simp [above, above.le, below, below.le] at missed

/-- The search takes the first grid that has a point in the interval. -/
theorem firstHit_eq {n : ℕ} (reached : ∃ j < n, ∃ c, nearestOn tie b (p - (j : ℕ)) = some c) :
    ∃ c p', firstHit tie b n p = ⟨c, p'⟩ ∧ nearestOn tie b p' = some c := by
  induction n generalizing p with
  | zero =>
    obtain ⟨j, small, -⟩ := reached
    exact absurd small (Nat.not_lt_zero j)
  | succ n ih =>
    cases hit : nearestOn tie b p with
    | some c => exact ⟨c, p, by rw [firstHit, hit], hit⟩
    | none =>
      obtain ⟨j, small, c, later⟩ := reached
      cases j with
      | zero =>
        rw [Int.natCast_zero, Int.sub_zero, hit] at later
        exact absurd later nofun
      | succ j =>
        obtain ⟨c', p', found, hit'⟩ := ih (p := p - 1)
          ⟨j, Nat.lt_of_succ_lt_succ small, c, by rw [← later]; congr 1; push_cast; ring⟩
        exact ⟨c', p', by rw [firstHit, hit, found], hit'⟩

theorem ten_pow_le {j k : ℕ} (less : 10 * k ≤ 3 * j) : 10 ^ k ≤ 2 ^ j := by
  rw [← Nat.pow_le_pow_iff_left (by decide : 3 ≠ 0), ← Nat.pow_mul, ← Nat.pow_mul, Nat.mul_comm k,
    Nat.pow_mul]
  calc (10 ^ 3) ^ k ≤ (2 ^ 10) ^ k := Nat.pow_le_pow_left (by decide) k
    _ = 2 ^ (10 * k) := (Nat.pow_mul ..).symm
    _ ≤ 2 ^ (j * 3) := Nat.pow_le_pow_right (by decide) (by omega)

theorem two_pow_le {j k : ℕ} (less : 28 * j ≤ 93 * k) : 2 ^ j ≤ 10 ^ k := by
  rw [← Nat.pow_le_pow_iff_left (by decide : 28 ≠ 0), ← Nat.pow_mul, ← Nat.pow_mul, Nat.mul_comm k]
  calc 2 ^ (j * 28) ≤ 2 ^ (93 * k) := Nat.pow_le_pow_right (by decide) (by omega)
    _ = (2 ^ 93) ^ k := Nat.pow_mul ..
    _ ≤ (10 ^ 28) ^ k := Nat.pow_le_pow_left (by decide) k
    _ = 10 ^ (28 * k) := (Nat.pow_mul ..).symm

/-- The last grid that is tried is fine enough. -/
theorem lastGrid_fine (canonical : b.Canonical) :
    spacing b (gridAbove b - 19) ≤ scale b (gridAbove b - 19) := by
  obtain ⟨p, grid⟩ : ∃ p, gridAbove b - 19 = p := ⟨_, rfl⟩
  have bits : b.significand.log2 ≤ 52 := by
    rcases Nat.eq_zero_or_pos b.significand with zero | positive
    · rw [zero]
      exact Nat.zero_le _
    · exact Nat.le_of_lt_succ ((Nat.log2_lt positive.ne').mpr canonical.bounded)
  have lowest := canonical.lowest
  have highest := canonical.highest
  rw [grid, spacing, scale]
  unfold gridAbove at grid
  by_cases up : 0 ≤ p
  · have none : (-b.exponent).toNat = 0 := by omega
    have none' : (-p).toNat = 0 := by omega
    rw [none, none', Nat.pow_zero, Nat.pow_zero, Nat.one_mul, Nat.mul_one]
    calc 4 * 10 ^ p.toNat ≤ 2 ^ 2 * 2 ^ (b.exponent.toNat - 2) :=
          Nat.mul_le_mul_left _ (ten_pow_le (by omega))
      _ = 2 ^ b.exponent.toNat := by rw [← Nat.pow_add]; congr 1; omega
  · have none : p.toNat = 0 := by omega
    rw [none, Nat.pow_zero, Nat.mul_one]
    calc 4 * 2 ^ (-b.exponent).toNat = 2 ^ (2 + (-b.exponent).toNat) := (Nat.pow_add 2 2 _).symm
      _ ≤ 2 ^ (b.exponent.toNat + (2 - b.exponent).toNat) :=
        Nat.pow_le_pow_right (by decide) (by omega)
      _ = 2 ^ b.exponent.toNat * 2 ^ (2 - b.exponent).toNat := Nat.pow_add ..
      _ ≤ 2 ^ b.exponent.toNat * 10 ^ (-p).toNat :=
        Nat.mul_le_mul_left _ (two_pow_le (by omega))

end

end Shortest

section
variable {b : Binary}

/-- The shortest decimal of a double rounds back to it. -/
theorem Binary.Canonical.shortest_rounds (canonical : b.Canonical) (tie : Tie) :
    (Decoded.finite b.unsigned).Rounds false (b.shortest tie).value := by
  unfold Binary.shortest
  split
  · rename_i zero
    have same : Decimal.value ⟨0, 0⟩ = b.unsigned.value := by
      rw [Decimal.value, Binary.value, Nat.cast_zero, zero_mul]
      show (0 : ℚ) = b.significand * 2 ^ b.exponent
      rw [zero, Nat.cast_zero, zero_mul]
    rw [same]
    exact canonical.unsigned.rounds
  · rename_i nonzero
    have positive : 0 < b.significand := Nat.pos_of_ne_zero nonzero
    obtain ⟨c, last⟩ := Shortest.nearestOn_fine tie positive
      (Shortest.lastGrid_fine canonical)
    have within : 19 < 20 := by decide
    obtain ⟨c', p, found, hit⟩ := Shortest.firstHit_eq ⟨19, within, c, last⟩
    have admits := (Shortest.admits_iff positive).mp (Shortest.admits_of_nearestOn hit)
    have unit : (2 : ℚ) ^ b.exponent ≠ 0 := zpow_ne_zero _ (by norm_num)
    have rounds := admits.rounds canonical (by positivity)
    rw [mul_assoc, div_mul_cancel₀ _ unit] at rounds
    rw [found]
    exact rounds

theorem Binary.Canonical.shortest_pos (canonical : b.Canonical) (positive : 0 < b.significand)
    (tie : Tie) : 0 < (b.shortest tie).significand := by
  rcases Nat.eq_zero_or_pos (b.shortest tie).significand with zero | some
  · have value : (b.shortest tie).value = Binary.value ⟨false, 0, -1074, false⟩ := by
      rw [Decimal.value, Binary.value, zero, Nat.cast_zero, zero_mul, zero_mul]
    have rounds := canonical.shortest_rounds tie
    rw [value] at rounds
    have least : Binary.Canonical ⟨false, 0, -1074, false⟩ :=
      ⟨by decide, by decide, by decide, .inr rfl, by decide⟩
    have same := rounds.unique least.rounds
    have none : b.significand = 0 := congrArg Binary.significand (Decoded.finite.inj same)
    omega
  · exact some

end

end CooperativeLisp

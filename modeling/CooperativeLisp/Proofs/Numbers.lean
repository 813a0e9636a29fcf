import Mathlib.Data.List.Basic
import CooperativeLisp.Proofs.Grammar
import CooperativeLisp.Proofs.Shortest

/-!
Numbers as text. Main statement: every finite number is shown as a number token that denotes it,
bit for bit, so also with the sign of zero.
-/

namespace CooperativeLisp

open Reader

/-! ### Digits -/

theorem digitsValue_eq (s : List Char) : digitsValue s = Nat.ofDigitChars 10 s 0 := rfl

theorem digitsValue_toDigits (n : ℕ) : digitsValue (Nat.toDigits 10 n) = n :=
  Nat.ofDigitChars_ten_toDigits

theorem digits_toDigits (n : ℕ) : Digits (Nat.toDigits 10 n) :=
  ⟨Nat.toDigits_ne_nil, fun _ member => Nat.isDigit_of_mem_toDigits (by decide) (by decide) member⟩

theorem Reader.Digits.append {s t : List Char} (leading : Digits s)
    (more : ∀ c ∈ t, c.isDigit = true) : Digits (s ++ t) :=
  ⟨by simp [leading.1], fun c member => (List.mem_append.mp member).elim (leading.2 c) (more c)⟩

theorem isDigit_of_mem_zeros {n : ℕ} : ∀ c ∈ List.replicate n '0', c.isDigit = true := by
  intro c member
  rw [List.eq_of_mem_replicate member]
  rfl

/-- No superfluous zero stands in front. -/
theorem head_toDigits {n : ℕ} (positive : 0 < n) : (Nat.toDigits 10 n).head? ≠ some '0' := by
  induction n using Nat.strongRecOn with
  | ind n ih =>
    rcases Nat.lt_or_ge n 10 with small | large
    · rw [Nat.toDigits_of_lt_base small]
      have nonzero : ∀ k < 10, 0 < k → [Nat.digitChar k].head? ≠ some '0' := by decide
      exact nonzero n small positive
    · rw [Nat.toDigits_of_base_le (by decide) large, List.head?_append_of_ne_nil _
        Nat.toDigits_ne_nil]
      exact ih (n / 10) (by omega) (by omega)

/-- What a decimal in positional notation is made of: digits with no point, or digits on both sides
of it. The parts denote the decimal. -/
structure Decimal.Parts (d : Decimal) (whole fraction : List Char) : Prop where
  leading : Digits whole
  first : 0 < d.significand → whole = ['0'] ∨ whole.head? ≠ some '0'
  trailing : ∀ c ∈ fraction, c.isDigit = true
  shown : d.positional.toList = whole ++ (if fraction = [] then [] else '.' :: fraction)
  value : (Decimal.ofParts whole fraction 0).value = d.value

section
variable {d : Decimal} {places : ℕ}

theorem Decimal.digits_denote (d : Decimal) : Nat.ofDigitChars 10 d.digits 0 = d.significand :=
  digitsValue_toDigits d.significand

/-- Zeros follow the digits of a decimal that is a whole number. -/
theorem Decimal.parts_whole (exponent : d.exponent = places) :
    d.Parts (d.digits ++ List.replicate places '0') [] := by
  refine ⟨(digits_toDigits d.significand).append isDigit_of_mem_zeros,
    fun positive => .inr ?_, nofun, ?_, ?_⟩
  · rw [List.head?_append_of_ne_nil d.digits Nat.toDigits_ne_nil]
    exact head_toDigits positive
  · simp [positional, exponent]
  · have scaled : digitsValue (d.digits ++ List.replicate places '0') =
        10 ^ places * d.significand := by
      rw [digitsValue_eq, Nat.ofDigitChars_append, d.digits_denote,
        Nat.ofDigitChars_replicate_zero]
    rw [Decimal.ofParts, List.append_nil, scaled, value, value, exponent]
    simp [mul_comm]

theorem Decimal.ofParts_value {whole fraction : List Char} (exponent : d.exponent = -places)
    (length : fraction.length = places)
    (digits : Nat.ofDigitChars 10 (whole ++ fraction) 0 = d.significand) :
    (Decimal.ofParts whole fraction 0).value = d.value := by
  rw [Decimal.ofParts, digitsValue_eq, digits, length, Int.zero_sub, ← exponent]

section
variable (exponent : d.exponent = -places) (fractional : 0 < places)
include exponent fractional

theorem Decimal.positional_eq : d.positional.toList =
    if places < d.digits.length then
      d.digits.take (d.digits.length - places) ++
        '.' :: d.digits.drop (d.digits.length - places)
    else '0' :: '.' :: (List.replicate (places - d.digits.length) '0' ++ d.digits) := by
  have below : ¬ 0 ≤ d.exponent := by omega
  rw [positional, if_neg below, exponent, Int.neg_neg, Int.toNat_natCast]
  dsimp only
  split
  · exact String.toList_ofList
  · exact String.toList_ofList

/-- The point stands inside of the digits if there are more of them than places. -/
theorem Decimal.parts_inside (inside : places < d.digits.length) :
    d.Parts (d.digits.take (d.digits.length - places))
      (d.digits.drop (d.digits.length - places)) := by
  have all := (digits_toDigits d.significand).2
  refine ⟨⟨?_, fun c member => all c (List.mem_of_mem_take member)⟩, fun positive => .inr ?_,
    fun c member => all c (List.mem_of_mem_drop member), ?_, ofParts_value exponent ?_ ?_⟩
  · rw [ne_eq, List.take_eq_nil_iff]
    rintro (short | none)
    · omega
    · exact Nat.toDigits_ne_nil none
  · rw [List.head?_take, if_neg (by omega)]
    exact head_toDigits positive
  · have behind : ¬ d.digits.drop (d.digits.length - places) = [] := by
      rw [List.drop_eq_nil_iff]
      omega
    rw [positional_eq exponent fractional, if_pos inside, if_neg behind]
  · rw [List.length_drop]
    omega
  · rw [List.take_append_drop]
    exact d.digits_denote

/-- A zero stands in front of the point, and further zeros behind it, if there are fewer digits. -/
theorem Decimal.parts_behind (outside : ¬ places < d.digits.length) :
    d.Parts ['0'] (List.replicate (places - d.digits.length) '0' ++ d.digits) := by
  refine ⟨⟨by simp, by simp⟩, fun _ => .inl rfl, ?_, ?_, ofParts_value exponent ?_ ?_⟩
  · intro c member
    rcases List.mem_append.mp member with zero | digit
    · exact isDigit_of_mem_zeros c zero
    · exact (digits_toDigits d.significand).2 c digit
  · have behind : ¬ List.replicate (places - d.digits.length) '0' ++ d.digits = [] := by
      rw [List.append_eq_nil_iff]
      exact fun none => Nat.toDigits_ne_nil none.2
    rw [positional_eq exponent fractional, if_neg outside, if_neg behind]
    rfl
  · rw [List.length_append, List.length_replicate]
    omega
  · have zeros : Nat.ofDigitChars 10 ['0'] 0 = 0 := rfl
    rw [Nat.ofDigitChars_append, Nat.ofDigitChars_append, zeros,
      Nat.ofDigitChars_replicate_zero, Nat.mul_zero]
    exact d.digits_denote

end

theorem Decimal.exists_parts (d : Decimal) : ∃ whole fraction, d.Parts whole fraction := by
  by_cases up : 0 ≤ d.exponent
  · obtain ⟨places, exponent⟩ := Int.eq_ofNat_of_zero_le up
    exact ⟨_, _, parts_whole exponent⟩
  · obtain ⟨places, exponent⟩ : ∃ n : ℕ, d.exponent = -n := ⟨(-d.exponent).toNat, by omega⟩
    have fractional : 0 < places := by omega
    by_cases inside : places < d.digits.length
    · exact ⟨_, _, parts_inside exponent fractional inside⟩
    · exact ⟨_, _, parts_behind exponent fractional inside⟩

end

/-! ### Numbers as tokens -/

section
variable {x : Float} {b : Binary}

/-- A double is known by its magnitude and its sign. -/
theorem Decoded.ofFloat_signed {y : Float} (decoded : ofFloat x = .finite b)
    (magnitude : ofFloat y = .finite b.unsigned) : (if b.negative then -y else y) = x := by
  refine ofFloat_injective ?_ (by rw [decoded]; exact nofun)
  rw [decoded]
  cases sign : b.negative with
  | false => rw [if_neg Bool.false_ne_true, magnitude, Binary.unsigned, ← sign]
  | true =>
    rw [if_pos rfl, ofFloat_neg, magnitude, negated, Binary.unsigned, Bool.not_false, ← sign]

/-- Decimals with the value of the shortest one of a double are read as that double. -/
theorem Decimal.toSigned_shortest (decoded : Decoded.ofFloat x = .finite b) {tie : Tie}
    {d : Decimal} (value : d.value = (b.shortest tie).value) : d.toSigned b.negative = x := by
  have canonical := Decoded.ofFloat_canonical decoded
  exact Decoded.ofFloat_signed decoded
    (d.toFloat_rounds.unique (value ▸ canonical.shortest_rounds tie))

/-- A finite number is shown as a token that denotes it. -/
theorem Number.text_token (decoded : Decoded.ofFloat x = .finite b) :
    NumberToken (Number.text x).toList x := by
  obtain ⟨whole, fraction, parts⟩ := (b.shortest .up).exists_parts
  have read := Decimal.toSigned_shortest decoded parts.value
  have shown : (Number.text x).toList =
      (if b.negative then ['-'] else []) ++ (b.shortest .up).positional.toList := by
    simp only [Number.text, decoded, Number.signed]
    split <;> simp
  have sign : Sign (if b.negative then ['-'] else []) b.negative := by
    cases b.negative
    · exact .absent
    · exact .minus
  rw [shown, parts.shown, ← read]
  cases fraction with
  | nil =>
    rw [if_pos rfl, List.append_nil]
    exact .whole sign parts.leading
  | cons c fraction =>
    rw [if_neg (List.cons_ne_nil c fraction), ← List.append_assoc]
    exact .fractional sign parts.leading ⟨List.cons_ne_nil c fraction, parts.trailing⟩

end

end CooperativeLisp

import CooperativeLisp.Json.Document
import CooperativeLisp.Proofs.Numbers

/-!
Numbers in documents. Main statements: the text of every finite number is one numeral, and a whole
number below `2 ^ 63` is read back exactly, except that zero loses its sign.
-/

namespace CooperativeLisp.Json

open Reader

/-! ### Numerals as written -/

/-- The characters of a power of ten, always with its sign. -/
def exponentChars : Option (Bool × List Char) → List Char
  | none => []
  | some (negative, digits) => 'e' :: (if negative then '-' else '+') :: digits

namespace Numeral

/-- The characters of a numeral. -/
def chars (n : Numeral) : List Char :=
  (if n.negative then ['-'] else []) ++
    (n.whole ++ ((if n.fraction = [] then [] else '.' :: n.fraction) ++ exponentChars n.exponent))

/-- The parts of a numeral that can be read: no superfluous zero in front, and at least one digit
in the power of ten. -/
structure Wellformed (n : Numeral) : Prop where
  whole : n.whole = ['0'] ∨ Digits n.whole ∧ n.whole.head? ≠ some '0'
  fraction : ∀ c ∈ n.fraction, c.isDigit = true
  exponent : ∀ negative digits, n.exponent = some (negative, digits) → Digits digits

end Numeral

/-- A numeral does not go on with the text. -/
def Ends (rest : List Char) : Prop :=
  ∀ c, rest.head? = some c → c.isDigit = false ∧ c ≠ '.' ∧ c ≠ 'e' ∧ c ≠ 'E'

section
variable {rest s : List Char}

theorem digits_append (all : ∀ c ∈ s, c.isDigit = true)
    (stops : ∀ c, rest.head? = some c → c.isDigit = false) : digits (s ++ rest) = (s, rest) := by
  rw [digits, takeWhile_append all stops, dropWhile_append all stops]

theorem exponent?_eq {exponent : Option (Bool × List Char)} (ends : Ends rest)
    (valid : ∀ negative digits, exponent = some (negative, digits) → Digits digits) :
    exponent? (exponentChars exponent ++ rest) = some (exponent, rest) := by
  match exponent with
  | none =>
    cases rest with
    | nil => rfl
    | cons c rest =>
      obtain ⟨-, -, lower, upper⟩ := ends c rfl
      exact if_neg (by simp [lower, upper])
  | some (negative, power) =>
    have leading := valid negative power rfl
    have sign : Number.splitSign ((if negative then '-' else '+') :: (power ++ rest)) =
        (negative, power ++ rest) := by cases negative <;> rfl
    have nonempty : power.isEmpty = false := by simpa using leading.1
    have split := digits_append leading.2 fun c first => (ends c first).1
    simp [exponentChars, exponent?, sign, split, nonempty]

theorem fraction?_eq {fraction more : List Char} (all : ∀ c ∈ fraction, c.isDigit = true)
    (stops : ∀ c, more.head? = some c → c.isDigit = false ∧ c ≠ '.') :
    fraction? ((if fraction = [] then [] else '.' :: fraction) ++ more) =
      some (fraction, more) := by
  split
  · rename_i none
    subst none
    rw [List.nil_append]
    unfold fraction?
    split
    · exact absurd rfl (stops '.' rfl).2
    · rfl
  · rename_i nonempty
    have split := digits_append all fun c first => (stops c first).1
    simp [fraction?, split, nonempty]

section
variable {whole more : List Char} (valid : whole = ['0'] ∨ Digits whole ∧ whole.head? ≠ some '0')
include valid

theorem first_digit : ∃ c tail, whole = c :: tail ∧ c.isDigit = true := by
  rcases valid with rfl | ⟨leading, -⟩
  · exact ⟨'0', [], rfl, rfl⟩
  · obtain ⟨c, tail, rfl⟩ := List.exists_cons_of_ne_nil leading.1
    exact ⟨c, tail, rfl, leading.2 c List.mem_cons_self⟩

theorem splitMinus_eq (negative : Bool) :
    splitMinus ((if negative then ['-'] else []) ++ (whole ++ more)) =
      (negative, whole ++ more) := by
  cases negative with
  | true => rfl
  | false =>
    rw [if_neg Bool.false_ne_true, List.nil_append]
    obtain ⟨c, tail, rfl, digit⟩ := first_digit valid
    unfold splitMinus
    split
    · rename_i minus
      obtain rfl := (List.cons.inj minus).1
      exact absurd digit (by decide)
    · rfl

theorem splitWhole_eq (stops : ∀ c, more.head? = some c → c.isDigit = false) :
    splitWhole (whole ++ more) = (whole, more) := by
  rcases valid with rfl | ⟨leading, nonzero⟩
  · rfl
  · unfold splitWhole
    split
    · rename_i zero
      cases whole with
      | nil => exact absurd rfl leading.1
      | cons c whole =>
        obtain rfl : c = '0' := (List.cons.inj zero).1
        exact absurd rfl nonzero
    · exact digits_append leading.2 stops

end

theorem Ends.noDigit (ends : Ends rest) : ∀ c, rest.head? = some c → c.isDigit = false ∧ c ≠ '.' :=
  fun c first => ⟨(ends c first).1, (ends c first).2.1⟩

/-- A numeral that can be read is read in full. -/
theorem Numeral.Wellformed.numeral?_eq {n : Numeral} (valid : n.Wellformed) (ends : Ends rest) :
    numeral? (n.chars ++ rest) = some (n, rest) := by
  obtain ⟨negative, whole, fraction, exponent⟩ := n
  obtain ⟨leading, trailing, power⟩ := valid
  dsimp only at leading trailing power
  have behindFraction : ∀ c, (exponentChars exponent ++ rest).head? = some c →
      c.isDigit = false ∧ c ≠ '.' := by
    intro c first
    cases exponent with
    | none => exact ends.noDigit c first
    | some e =>
      obtain rfl : 'e' = c := Option.some.inj first
      decide
  have behindWhole : ∀ c, ((if fraction = [] then [] else '.' :: fraction) ++
      (exponentChars exponent ++ rest)).head? = some c → c.isDigit = false := by
    intro c first
    split at first
    · exact (behindFraction c first).1
    · obtain rfl : '.' = c := Option.some.inj first
      decide
  obtain ⟨d, tail, nonempty, -⟩ := first_digit leading
  simp only [Numeral.chars, List.append_assoc]
  simp only [numeral?, splitMinus_eq leading negative, splitWhole_eq leading behindWhole,
    fraction?_eq trailing behindFraction]
  rw [if_neg (by simp [nonempty])]
  simp only [Option.bind_eq_bind, Option.bind_some, exponent?_eq ends power]
  rfl

end

/-! ### Whole numbers -/

/-- The numeral of an integer. -/
def Numeral.ofInt (n : ℤ) : Numeral :=
  ⟨decide (n < 0), Nat.toDigits 10 n.natAbs, [], none⟩

theorem Numeral.ofInt_chars (n : ℤ) : (toString n).toList = (ofInt n).chars := by
  rw [Int.toString_eq_repr, Int.repr_eq_if, chars, ofInt]
  by_cases up : 0 ≤ n
  · have same : n.toNat = n.natAbs := by omega
    simp [up, same, exponentChars]
  · have same : (-n).toNat = n.natAbs := by omega
    simp [up, same, Int.not_le.mp up, exponentChars]

theorem Numeral.ofInt_wellformed (n : ℤ) : (ofInt n).Wellformed := by
  refine ⟨?_, nofun, nofun⟩
  rcases Nat.eq_zero_or_pos n.natAbs with zero | positive
  · exact .inl (by rw [ofInt, zero]; rfl)
  · exact .inr ⟨digits_toDigits n.natAbs, head_toDigits positive⟩

theorem le_ofDigitChars (s : List Char) (k : ℕ) : k ≤ Nat.ofDigitChars 10 s k := by
  rw [Nat.ofDigitChars_eq_ofDigitChars_zero]
  exact Nat.le_trans (Nat.le_mul_of_pos_left k (Nat.pow_pos (by decide))) (Nat.le_add_right _ _)

/-- Digits that fit are all taken. -/
theorem leading_eq {s : List Char} {k : ℕ} (small : Nat.ofDigitChars 10 s k ≤ maxSignificand) :
    leading k s = (Nat.ofDigitChars 10 s k, []) := by
  induction s generalizing k with
  | nil => rfl
  | cons c s ih =>
    rw [Nat.ofDigitChars_cons, Nat.mul_comm] at small ⊢
    have room : fits k (c.toNat - '0'.toNat) = true :=
      decide_eq_true (Nat.le_trans (le_ofDigitChars s _) small)
    simp only [leading, room, if_true]
    exact ih small

/-- A whole number below `2 ^ 63` is read back exactly, but for the sign of zero. -/
theorem Numeral.ofInt_toFloat? {x : Float} {n : ℤ} (whole : wholeNumber? x = some n)
    (small : n.natAbs < 2 ^ 63) : (ofInt n).toFloat? = some (if n = 0 then 0.0 else x) := by
  have taken : leading 0 (Nat.toDigits 10 n.natAbs) = (n.natAbs, []) := by
    have digits := Nat.ofDigitChars_ten_toDigits (n := n.natAbs)
    have room : Nat.ofDigitChars 10 (Nat.toDigits 10 n.natAbs) 0 ≤ maxSignificand := by
      rw [digits, maxSignificand]
      exact Nat.le_of_lt (Nat.lt_trans small (by decide))
    rw [leading_eq room, digits]
  have read : (ofInt n).toFloat? =
      some (if n < 0 then -n.natAbs.toUInt64.toFloat else n.natAbs.toUInt64.toFloat) := by
    simp [toFloat?, ofInt, taken, leading, isInteger]
  rw [read]
  obtain ⟨b, decoded, integer⟩ := Decoded.of_wholeNumber? whole
  obtain ⟨k, value, signed⟩ := Binary.toInt?_eq_some.mp integer
  have size : n.natAbs = k := by split at signed <;> omega
  rw [size]
  by_cases zero : n = 0
  · obtain rfl : k = 0 := by omega
    rw [zero]
    rfl
  · have kept : k.toUInt64.toNat = k := UInt64.toNat_ofNat_of_lt' (by
      rw [UInt64.size]
      omega)
    have rounds := Decoded.ofFloat_toFloat k.toUInt64
    rw [kept, ← value] at rounds
    have magnitude := rounds.unique (Decoded.ofFloat_canonical decoded).unsigned.rounds
    have same : n < 0 ↔ b.negative = true := by
      cases sign : b.negative with
      | false =>
        rw [sign, if_neg Bool.false_ne_true] at signed
        simp only [Bool.false_eq_true, iff_false]
        omega
      | true =>
        rw [sign, if_pos rfl] at signed
        simp only [iff_true]
        omega
    rw [if_neg zero, ← Decoded.ofFloat_signed decoded magnitude, Option.some_inj]
    exact if_congr same rfl rfl

/-! ### Texts of numbers -/

theorem documentText_integer {x : Float} {n : ℤ} (whole : wholeNumber? x = some n)
    (small : n.natAbs < 2 ^ 63) : Number.documentText? x = some (toString n) := by
  obtain ⟨b, decoded, integer⟩ := Decoded.of_wholeNumber? whole
  have within : decide (n.natAbs < Nat.pow 2 63) = true := decide_eq_true small
  simp only [Number.documentText?, decoded, integer, Option.filter, within, if_true]

theorem documentText_isSome {x : Float} :
    (∃ text, Number.documentText? x = some text) ↔ x.isFinite = true := by
  rw [Decoded.isFinite_iff]
  unfold Number.documentText?
  cases Decoded.ofFloat x with
  | finite b =>
    refine ⟨fun _ => ⟨b, rfl⟩, fun _ => ?_⟩
    dsimp only
    split <;> exact ⟨_, rfl⟩
  | infinite => exact ⟨nofun, nofun⟩
  | notANumber => exact ⟨nofun, nofun⟩

section
variable {d : Decimal} (negative : Bool)

/-- Positional notation is a numeral. -/
theorem positional_numeral (positive : 0 < d.significand) :
    ∃ n : Numeral, n.Wellformed ∧
      (Number.signed negative d.positional).toList = n.chars := by
  obtain ⟨whole, fraction, parts⟩ := d.exists_parts
  refine ⟨⟨negative, whole, fraction, none⟩, ⟨?_, parts.trailing, nofun⟩, ?_⟩
  · exact (parts.first positive).imp_right fun nonzero => ⟨parts.leading, nonzero⟩
  · rw [Number.signed, Numeral.chars, exponentChars, List.append_nil, ← parts.shown]
    cases negative <;> simp

/-- Notation with a power of ten is a numeral. -/
theorem scientific_numeral (positive : 0 < d.significand) :
    ∃ n : Numeral, n.Wellformed ∧
      (Number.signed negative d.scientific).toList = n.chars := by
  have all := (digits_toDigits d.significand).2
  have nonzero := head_toDigits positive
  obtain ⟨c, more, digits⟩ :=
    List.exists_cons_of_ne_nil (digits_toDigits d.significand).1
  rw [digits] at all nonzero
  refine ⟨⟨negative, [c], more,
    some (decide (d.magnitude < 0), Nat.toDigits 10 d.magnitude.natAbs)⟩, ⟨.inr ⟨⟨by simp, ?_⟩,
    nonzero⟩, fun e member => all e (List.mem_cons_of_mem c member), ?_⟩, ?_⟩
  · intro e member
    rw [List.mem_singleton.mp member]
    exact all c List.mem_cons_self
  · intro _ _ same
    cases same
    exact digits_toDigits _
  · have digits : d.digits = c :: more := digits
    rw [Number.signed, Decimal.scientific, digits, Numeral.chars]
    by_cases below : d.magnitude < 0
    all_goals cases negative <;> cases more <;> simp [exponentChars, below]

end

/-- The text of a number is one numeral. -/
theorem documentText_numeral {x : Float} {text : String}
    (shown : Number.documentText? x = some text) :
    ∃ n : Numeral, n.Wellformed ∧ text.toList = n.chars := by
  unfold Number.documentText? at shown
  split at shown
  · rename_i b decoded
    split at shown
    · rename_i n integer
      obtain rfl := Option.some.inj shown
      exact ⟨.ofInt n, Numeral.ofInt_wellformed n, Numeral.ofInt_chars n⟩
    · rename_i notInteger
      have positive : 0 < b.significand := by
        rcases Nat.eq_zero_or_pos b.significand with zero | positive
        · have value : b.value = (0 : ℕ) := by
            rw [Binary.value, zero, Nat.cast_zero, zero_mul]
          have integer : b.toInt? = some 0 :=
            Binary.toInt?_eq_some.mpr ⟨0, value, by split <;> rfl⟩
          rw [integer] at notInteger
          exact absurd notInteger (by decide)
        · exact positive
      have shortest := (Decoded.ofFloat_canonical decoded).shortest_pos positive .even
      obtain rfl := Option.some.inj shown
      split
      · exact positional_numeral b.negative shortest
      · exact scientific_numeral b.negative shortest
  · cases shown

end CooperativeLisp.Json

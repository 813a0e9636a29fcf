import CooperativeLisp.Decimal.Read
import CooperativeLisp.Symbol
import CooperativeLisp.Fault

/-!
The pieces of program text: layout between tokens, numbers and names. Main statements: skipping
layout never adds text, and reading an atom always uses some up.
-/

namespace CooperativeLisp.Reader

/-- Blanks between tokens. -/
def isLayout (c : Char) : Bool :=
  c == ' ' || c == '\t' || c == '\r' || c == '\n'

/-- Drops blanks and, if `comments` is set, comments, which run from a semicolon to the end of the
line. `inComment` says whether the text starts inside a comment. -/
def dropLayout (comments : Bool) : Bool → List Char → List Char
  | _, [] => []
  | true, c :: s => dropLayout comments (c != '\n') s
  | false, c :: s =>
    if isLayout c then dropLayout comments false s
    else if comments && c == ';' then dropLayout comments true s
    else c :: s

/-- Drops the layout in front of a token. -/
def skipLayout (comments : Bool) (s : List Char) : List Char :=
  dropLayout comments false s

theorem dropLayout_length (comments inComment : Bool) (s : List Char) :
    (dropLayout comments inComment s).length ≤ s.length := by
  induction s generalizing inComment with
  | nil => cases inComment <;> simp [dropLayout]
  | cons c s ih =>
    cases inComment with
    | true => exact Nat.le_succ_of_le (ih _)
    | false =>
      simp only [dropLayout]
      split
      · exact Nat.le_succ_of_le (ih _)
      · split
        · exact Nat.le_succ_of_le (ih _)
        · exact Nat.le_refl _

theorem skipLayout_length (comments : Bool) (s : List Char) :
    (skipLayout comments s).length ≤ s.length :=
  dropLayout_length comments false s

/-- The digits of a fraction, if the text goes on with a point and a digit. -/
def splitFraction : List Char → List Char × List Char
  | '.' :: d :: s =>
    if d.isDigit then ((d :: s).takeWhile Char.isDigit, (d :: s).dropWhile Char.isDigit)
    else ([], '.' :: d :: s)
  | s => ([], s)

/-- Reads a number: a sign or none, digits, perhaps a point and more digits. The text must not go
on with a character of a name. -/
def number? (s : List Char) : Option (Float × List Char) :=
  let (negative, body) := Number.splitSign s
  let whole := body.takeWhile Char.isDigit
  let (fraction, rest) := splitFraction (body.dropWhile Char.isDigit)
  if whole.isEmpty || rest.head?.any Symbol.isNameChar then none
  else some ((Decimal.ofParts whole fraction 0).toSigned negative, rest)

/-- A name as a value; two names stand for the markers. -/
def ofName (name : String) : Value :=
  if name == Symbol.nilName then .nil
  else if name == Symbol.truthName then .truth
  else .symbol name

/-- Reads a name, which ends where no character of a name follows. -/
def name? (s : List Char) : Option (Value × List Char) :=
  let name := s.takeWhile Symbol.isNameChar
  if Symbol.isName name then
    some (ofName (String.ofList name), s.dropWhile Symbol.isNameChar)
  else none

/-- Reads a number or a name. -/
def atom? (s : List Char) : Option (Value × List Char) :=
  match number? s with
  | some (x, rest) => some (.number x, rest)
  | none => name? s

theorem splitFraction_length (s : List Char) : (splitFraction s).2.length ≤ s.length := by
  unfold splitFraction
  split
  · split
    · exact Nat.le_succ_of_le (List.dropWhile_sublist _).length_le
    · exact Nat.le_refl _
  · exact Nat.le_refl _

theorem splitSign_length (s : List Char) : (Number.splitSign s).2.length ≤ s.length := by
  unfold Number.splitSign
  split <;> simp

theorem dropWhile_length_lt {p : Char → Bool} {s : List Char}
    (taken : (s.takeWhile p).isEmpty = false) : (s.dropWhile p).length < s.length := by
  cases s with
  | nil => simp at taken
  | cons c s =>
    cases h : p c with
    | false => simp [h] at taken
    | true =>
      rw [List.dropWhile_cons_of_pos h]
      exact Nat.lt_succ_of_le (List.dropWhile_sublist _).length_le

theorem number?_length {s rest : List Char} {x : Float} (read : number? s = some (x, rest)) :
    rest.length < s.length := by
  simp only [number?] at read
  split at read
  · exact absurd read (by simp)
  · rename_i blocked
    simp only [Bool.or_eq_true, not_or, Bool.not_eq_true] at blocked
    obtain ⟨-, rfl⟩ := Prod.mk.inj (Option.some.inj read)
    calc
      _ ≤ _ := splitFraction_length _
      _ < _ := dropWhile_length_lt blocked.1
      _ ≤ _ := splitSign_length s

theorem name?_length {s rest : List Char} {v : Value} (read : name? s = some (v, rest)) :
    rest.length < s.length := by
  simp only [name?] at read
  split at read
  · rename_i valid
    obtain ⟨-, rfl⟩ := Prod.mk.inj (Option.some.inj read)
    refine dropWhile_length_lt ?_
    simp only [Symbol.isName, Bool.and_eq_true, Bool.not_eq_true'] at valid
    exact valid.1.1
  · exact absurd read (by simp)

theorem atom?_length {s rest : List Char} {v : Value} (read : atom? s = some (v, rest)) :
    rest.length < s.length := by
  unfold atom? at read
  split at read
  · rename_i number
    obtain ⟨-, rfl⟩ := Prod.mk.inj (Option.some.inj read)
    exact number?_length number
  · exact name?_length read

end CooperativeLisp.Reader

import CooperativeLisp.Reader.Program

/-!
The grammar of program text, as relations between a text, what its front denotes and the text that
is left. Main statements: the readers of layout, numbers and names agree with the relations on
what stands at the front of a text.
-/

namespace CooperativeLisp.Reader

/-- Blanks and, if `comments` is set, comments stand in front of the rest. A comment ends before
the next end of a line, or with the text. -/
inductive Layout (comments : Bool) : List Char → List Char → Prop where
  | none {s : List Char} : Layout comments s s
  | blank {c : Char} {s rest : List Char} (isBlank : c = ' ' ∨ c = '\t' ∨ c = '\r' ∨ c = '\n')
      (more : Layout comments s rest) : Layout comments (c :: s) rest
  | comment {body s rest : List Char} (allowed : comments = true) (inLine : '\n' ∉ body)
      (ends : s = [] ∨ s.head? = some '\n') (more : Layout comments s rest) :
      Layout comments (';' :: (body ++ s)) rest

/-- No character of a name stands directly at the front. -/
def Apart (rest : List Char) : Prop :=
  ∀ c, rest.head? = some c → Symbol.isNameChar c = false

/-- A sign or none, and whether it is a minus. -/
inductive Sign : List Char → Bool → Prop where
  | absent : Sign [] false
  | plus : Sign ['+'] false
  | minus : Sign ['-'] true

/-- One digit or more. -/
def Digits (s : List Char) : Prop :=
  s ≠ [] ∧ ∀ c ∈ s, c.isDigit = true

/-- A sign or none, digits, and perhaps a point and more digits, with the number they denote. -/
inductive NumberToken : List Char → Float → Prop where
  | whole {sign digits : List Char} {negative : Bool} (signed : Sign sign negative)
      (leading : Digits digits) :
      NumberToken (sign ++ digits) ((Decimal.ofParts digits [] 0).toSigned negative)
  | fractional {sign digits fraction : List Char} {negative : Bool} (signed : Sign sign negative)
      (leading : Digits digits) (trailing : Digits fraction) :
      NumberToken (sign ++ digits ++ '.' :: fraction)
        ((Decimal.ofParts digits fraction 0).toSigned negative)

/-- The two pairs of brackets. -/
inductive Bracket where
  | round
  | square

/-- The character that opens a bracket. -/
def Bracket.opening : Bracket → Char
  | round => '('
  | square => '['

/-- The character that closes a bracket. -/
def Bracket.closing : Bracket → Char
  | round => ')'
  | square => ']'

/-- What a bracket around these elements denotes. -/
def Bracket.value : Bracket → List Value → Value
  | round, vs => .list vs
  | square, vs => quoted (.list vs)

mutual

/-- An expression stands at the front, under `depth` brackets and quote marks. -/
inductive Expression (comments : Bool) : Nat → List Char → Value → List Char → Prop where
  | number {depth : Nat} {token rest : List Char} {x : Float} (within : depth < maxDepth)
      (valid : NumberToken token x) (apart : Apart rest) :
      Expression comments depth (token ++ rest) (.number x) rest
  | name {depth : Nat} {token rest : List Char} (within : depth < maxDepth)
      (valid : Symbol.isName token = true) (apart : Apart rest) :
      Expression comments depth (token ++ rest) (ofName (String.ofList token)) rest
  | bracket {depth : Nat} {b : Bracket} {s rest : List Char} {vs : List Value}
      (within : depth < maxDepth) (elements : Elements comments (depth + 1) b s vs rest) :
      Expression comments depth (b.opening :: s) (b.value vs) rest
  | quote {depth : Nat} {s inner rest : List Char} {v : Value} (within : depth < maxDepth)
      (layout : Layout comments s inner) (operand : Expression comments (depth + 1) inner v rest) :
      Expression comments depth ('\'' :: s) (quoted v) rest

/-- Expressions and the closing bracket stand at the front, with layout before each. -/
inductive Elements (comments : Bool) : Nat → Bracket → List Char → List Value → List Char → Prop
    where
  | close {depth : Nat} {b : Bracket} {s rest : List Char}
      (layout : Layout comments s (b.closing :: rest)) : Elements comments depth b s [] rest
  | cons {depth : Nat} {b : Bracket} {s inner mid rest : List Char} {v : Value} {vs : List Value}
      (layout : Layout comments s inner) (head : Expression comments depth inner v mid)
      (more : Elements comments depth b mid vs rest) : Elements comments depth b s (v :: vs) rest

end

/-- Expressions make up the whole text, with layout before, between and behind them. -/
inductive Expressions (comments : Bool) : List Char → List Value → Prop where
  | done {s : List Char} (layout : Layout comments s []) : Expressions comments s []
  | cons {s inner rest : List Char} {v : Value} {vs : List Value}
      (layout : Layout comments s inner) (head : Expression comments 0 inner v rest)
      (more : Expressions comments rest vs) : Expressions comments s (v :: vs)

/-! ### Layout -/

section
variable {comments : Bool} {s rest : List Char}

theorem isLayout_iff {c : Char} :
    isLayout c = true ↔ c = ' ' ∨ c = '\t' ∨ c = '\r' ∨ c = '\n' := by
  simp [isLayout, or_assoc]

theorem dropLayout_inLine {body : List Char} (inLine : '\n' ∉ body) :
    dropLayout comments true (body ++ s) = dropLayout comments true s := by
  induction body with
  | nil => rfl
  | cons c body ih =>
    obtain ⟨other, inLine⟩ := not_or.mp (mt List.mem_cons.mpr inLine)
    have inside : (c != '\n') = true := bne_iff_ne.mpr (Ne.symm other)
    rw [List.cons_append, dropLayout, inside, ih inLine]

/-- The end of a line ends a comment and is a blank itself. -/
theorem dropLayout_lineEnd (ends : s = [] ∨ s.head? = some '\n') :
    dropLayout comments true s = skipLayout comments s := by
  rcases ends with rfl | lineEnd
  · rfl
  · cases s with
    | nil => rfl
    | cons c s =>
      obtain rfl : c = '\n' := by simpa using lineEnd
      rfl

theorem Layout.skip_eq (layout : Layout comments s rest) :
    skipLayout comments s = skipLayout comments rest := by
  induction layout with
  | none => rfl
  | blank isBlank _ ih =>
    rw [← ih, skipLayout, dropLayout, if_pos (isLayout_iff.mpr isBlank)]
    rfl
  | comment allowed inLine ends _ ih =>
    have opens : (comments && ';' == ';') = true := by simp [allowed]
    rw [← ih, ← dropLayout_lineEnd ends, ← dropLayout_inLine inLine, skipLayout, dropLayout,
      if_neg (by decide), if_pos opens]

/-- Inside a comment, the rest of the line goes first. -/
theorem layout_dropLayout (comments : Bool) (s : List Char) :
    Layout comments s (dropLayout comments false s) ∧
      ∃ body more, s = body ++ more ∧ '\n' ∉ body ∧ (more = [] ∨ more.head? = some '\n') ∧
        Layout comments more (dropLayout comments true s) := by
  induction s with
  | nil => exact ⟨.none, [], [], rfl, by simp, .inl rfl, .none⟩
  | cons c s ih =>
    obtain ⟨outside, body, more, split, inLine, ends, inside⟩ := ih
    constructor
    · simp only [dropLayout]
      by_cases isBlank : isLayout c = true
      · rw [if_pos isBlank]
        exact .blank (isLayout_iff.mp isBlank) outside
      · rw [if_neg isBlank]
        by_cases opens : (comments && c == ';') = true
        · obtain ⟨allowed, isSemicolon⟩ := Bool.and_eq_true_iff.mp opens
          rw [if_pos opens, eq_of_beq isSemicolon]
          have := Layout.comment allowed inLine ends inside
          rwa [← split] at this
        · rw [if_neg opens]
          exact .none
    · by_cases lineEnd : c = '\n'
      · subst lineEnd
        exact ⟨[], '\n' :: s, rfl, by simp, .inr rfl, .blank (by simp) outside⟩
      · have stays : (c != '\n') = true := bne_iff_ne.mpr lineEnd
        refine ⟨c :: body, more, by rw [split, List.cons_append], ?_, ends, ?_⟩
        · exact mt List.mem_cons.mp (not_or.mpr ⟨Ne.symm lineEnd, inLine⟩)
        · rw [dropLayout, stays]
          exact inside

theorem layout_skipLayout (comments : Bool) (s : List Char) :
    Layout comments s (skipLayout comments s) :=
  (layout_dropLayout comments s).1

theorem skipLayout_cons {c : Char} (visible : isLayout c = false) (noComment : c ≠ ';') :
    skipLayout comments (c :: s) = c :: s := by
  simp [skipLayout, dropLayout, visible, noComment]

end

/-! ### Numbers and names -/

section
variable {token sign digits s rest : List Char} {negative : Bool} {x : Float}

theorem isNameChar_of_isDigit {c : Char} (digit : c.isDigit = true) :
    Symbol.isNameChar c = true := by
  have ascii : c.toNat < 128 := by
    simp only [Char.isDigit, Bool.and_eq_true, decide_eq_true_eq, UInt32.le_iff_toNat_le] at digit
    exact Nat.lt_of_le_of_lt digit.2 (by decide)
  simp [Symbol.isNameChar, Text.isAlphanumeric_ascii ascii, Char.isAlphanum, digit]

theorem takeWhile_append {p : Char → Bool} (all : ∀ c ∈ token, p c = true)
    (stops : ∀ c, rest.head? = some c → p c = false) : (token ++ rest).takeWhile p = token := by
  rw [List.takeWhile_append_of_pos all]
  cases rest with
  | nil => simp
  | cons c rest => simp [stops c rfl]

theorem dropWhile_append {p : Char → Bool} (all : ∀ c ∈ token, p c = true)
    (stops : ∀ c, rest.head? = some c → p c = false) : (token ++ rest).dropWhile p = rest := by
  rw [List.dropWhile_append_of_pos all]
  cases rest with
  | nil => rfl
  | cons c rest => simp [stops c rfl]

theorem Apart.noDigit (apart : Apart rest) : ∀ c, rest.head? = some c → c.isDigit = false := by
  intro c first
  have noName := apart c first
  cases digit : c.isDigit with
  | false => rfl
  | true =>
    rw [isNameChar_of_isDigit digit] at noName
    exact absurd noName (by decide)

theorem apart_iff : Apart rest ↔ rest.head?.any Symbol.isNameChar = false := by
  cases rest with
  | nil => simp [Apart]
  | cons c rest => simp [Apart]

theorem Sign.split (signed : Sign sign negative) (leading : Digits digits) :
    Number.splitSign (sign ++ (digits ++ rest)) = (negative, digits ++ rest) := by
  cases signed with
  | plus => rfl
  | minus => rfl
  | absent =>
    cases digits with
    | nil => exact absurd rfl leading.1
    | cons c digits =>
      have digit := leading.2 c List.mem_cons_self
      have noMinus : c ≠ '-' := by rintro rfl; exact absurd digit (by decide)
      have noPlus : c ≠ '+' := by rintro rfl; exact absurd digit (by decide)
      simp only [List.nil_append, List.cons_append]
      unfold Number.splitSign
      split <;> simp_all

theorem sign_splitSign (s : List Char) :
    ∃ sign, s = sign ++ (Number.splitSign s).2 ∧ Sign sign (Number.splitSign s).1 := by
  unfold Number.splitSign
  split
  · exact ⟨['-'], rfl, .minus⟩
  · exact ⟨['+'], rfl, .plus⟩
  · exact ⟨[], rfl, .absent⟩

theorem digits_takeWhile {s : List Char} (some : (s.takeWhile Char.isDigit).isEmpty = false) :
    Digits (s.takeWhile Char.isDigit) := by
  refine ⟨fun none => by simp [none] at some, fun c member => ?_⟩
  exact List.all_eq_true.mp List.all_takeWhile c member

/-- A point is split off only together with a digit behind it. -/
theorem splitFraction_cases (s : List Char) :
    splitFraction s = ([], s) ∨
      ∃ fraction rest, splitFraction s = (fraction, rest) ∧ Digits fraction ∧
        s = '.' :: (fraction ++ rest) := by
  unfold splitFraction
  split
  · rename_i d s
    by_cases digit : d.isDigit = true
    · rw [if_pos digit]
      refine .inr ⟨_, _, rfl, digits_takeWhile ?_, ?_⟩
      · simp [digit]
      · rw [List.takeWhile_append_dropWhile]
    · rw [if_neg digit]
      exact .inl rfl
  · exact .inl rfl

theorem splitFraction_eq (noPoint : rest.head? ≠ some '.') : splitFraction rest = ([], rest) := by
  rcases splitFraction_cases rest with unsplit | ⟨fraction, more, -, -, rfl⟩
  · exact unsplit
  · exact absurd rfl noPoint

theorem splitFraction_point {fraction : List Char} (trailing : Digits fraction)
    (apart : Apart rest) : splitFraction ('.' :: (fraction ++ rest)) = (fraction, rest) := by
  cases fraction with
  | nil => exact absurd rfl trailing.1
  | cons d fraction =>
    have digit := trailing.2 d List.mem_cons_self
    simp only [List.cons_append, splitFraction]
    rw [if_pos digit, ← List.cons_append, takeWhile_append trailing.2 apart.noDigit,
      dropWhile_append trailing.2 apart.noDigit]

/-- Reading a number whose parts are known. -/
theorem number?_parts {fraction body : List Char} (signed : Sign sign negative)
    (leading : Digits digits) (stops : ∀ c, body.head? = some c → c.isDigit = false)
    (parts : splitFraction body = (fraction, rest)) (apart : Apart rest) :
    number? (sign ++ (digits ++ body)) =
      some ((Decimal.ofParts digits fraction 0).toSigned negative, rest) := by
  have nonempty : digits.isEmpty = false := by simpa using leading.1
  simp only [number?, signed.split leading, takeWhile_append leading.2 stops,
    dropWhile_append leading.2 stops, parts]
  simp [nonempty, apart_iff.mp apart]

/-- A number is read in full, unless a point and digits behind a whole number continue it. -/
theorem NumberToken.number?_eq (valid : NumberToken token x) (apart : Apart rest)
    (noPoint : rest.head? ≠ some '.') : number? (token ++ rest) = some (x, rest) := by
  cases valid with
  | whole signed leading =>
    rw [List.append_assoc]
    exact number?_parts signed leading apart.noDigit (splitFraction_eq noPoint) apart
  | fractional signed leading trailing =>
    rw [List.append_assoc, List.append_assoc, List.cons_append]
    refine number?_parts signed leading ?_ (splitFraction_point trailing apart) apart
    intro c first
    obtain rfl : '.' = c := by simpa using first
    rfl

theorem number?_sound (read : number? s = some (x, rest)) :
    ∃ token, s = token ++ rest ∧ NumberToken token x ∧ Apart rest := by
  obtain ⟨sign, split, signed⟩ := sign_splitSign s
  simp only [number?] at read
  generalize Number.splitSign s = body at *
  obtain ⟨negative, body⟩ := body
  simp only at split signed read
  subst split
  have whole := List.takeWhile_append_dropWhile (p := Char.isDigit) (l := body)
  rcases Bool.eq_false_or_eq_true ((body.takeWhile Char.isDigit).isEmpty ||
      (splitFraction (body.dropWhile Char.isDigit)).2.head?.any Symbol.isNameChar)
    with refused | accepted
  · simp [refused] at read
  · rw [if_neg (by rw [accepted]; decide)] at read
    obtain ⟨some, apart⟩ := Bool.or_eq_false_iff.mp accepted
    have leading := digits_takeWhile some
    rcases splitFraction_cases (body.dropWhile Char.isDigit)
      with unsplit | ⟨fraction, more, parts, trailing, behind⟩
    · rw [unsplit] at read apart
      obtain ⟨rfl, rfl⟩ := Prod.mk.inj (Option.some.inj read)
      refine ⟨sign ++ body.takeWhile Char.isDigit, ?_, .whole signed leading, apart_iff.mpr apart⟩
      rw [List.append_assoc, whole]
    · rw [parts] at read apart
      obtain ⟨rfl, rfl⟩ := Prod.mk.inj (Option.some.inj read)
      refine ⟨_, ?_, .fractional signed leading trailing, apart_iff.mpr apart⟩
      rw [List.append_assoc, List.append_assoc, List.cons_append, ← behind, whole]

theorem isName_iff : Symbol.isName token = true ↔
    token ≠ [] ∧ Symbol.startsAsNumber token = false ∧ ∀ c ∈ token, Symbol.isNameChar c = true := by
  simp [Symbol.isName, and_assoc]

theorem isName_first (valid : Symbol.isName token = true) :
    ∃ c more, token = c :: more ∧ Symbol.isNameChar c = true := by
  obtain ⟨nonempty, -, all⟩ := isName_iff.mp valid
  obtain ⟨c, more, rfl⟩ := List.exists_cons_of_ne_nil nonempty
  exact ⟨c, more, rfl, all c List.mem_cons_self⟩

theorem name?_eq (valid : Symbol.isName token = true) (apart : Apart rest) :
    name? (token ++ rest) = some (ofName (String.ofList token), rest) := by
  have all := (isName_iff.mp valid).2.2
  simp only [name?, takeWhile_append all apart, dropWhile_append all apart, valid, if_true]

theorem name?_sound {v : Value} (read : name? s = some (v, rest)) :
    ∃ token, s = token ++ rest ∧ Symbol.isName token = true ∧ Apart rest ∧
      v = ofName (String.ofList token) := by
  simp only [name?] at read
  split at read
  · rename_i valid
    obtain ⟨rfl, rfl⟩ := Prod.mk.inj (Option.some.inj read)
    refine ⟨_, List.takeWhile_append_dropWhile.symm, valid, fun c first => ?_, rfl⟩
    have := List.head?_dropWhile_not Symbol.isNameChar s
    rw [first] at this
    simpa using this
  · exact absurd read (by simp)

theorem NumberToken.lead (valid : NumberToken token x) :
    ∃ sign negative d more, token = sign ++ d :: more ∧ Sign sign negative ∧ d.isDigit = true := by
  have first {digits : List Char} (leading : Digits digits) :
      ∃ d more, digits = d :: more ∧ d.isDigit = true := by
    cases digits with
    | nil => exact absurd rfl leading.1
    | cons d more => exact ⟨d, more, rfl, leading.2 d List.mem_cons_self⟩
  cases valid with
  | whole signed leading =>
    obtain ⟨d, more, rfl, digit⟩ := first leading
    exact ⟨_, _, d, more, rfl, signed, digit⟩
  | fractional signed leading _ =>
    obtain ⟨d, more, rfl, digit⟩ := first leading
    exact ⟨_, _, d, _, by rw [List.append_assoc, List.cons_append], signed, digit⟩

theorem NumberToken.first (valid : NumberToken token x) :
    ∃ c more, token = c :: more ∧ Symbol.isNameChar c = true := by
  obtain ⟨sign, negative, d, more, rfl, signed, digit⟩ := valid.lead
  cases signed with
  | absent => exact ⟨d, _, rfl, isNameChar_of_isDigit digit⟩
  | plus => exact ⟨'+', _, rfl, rfl⟩
  | minus => exact ⟨'-', _, rfl, rfl⟩

/-- A name does not start as a number, and a sign alone is apart from the digit that would make it
one. -/
theorem startsAsNumber_of_lead {d : Char} {more : List Char} (nonempty : token ≠ [])
    (apart : Apart rest) (split : token ++ rest = sign ++ d :: more) (signed : Sign sign negative)
    (digit : d.isDigit = true) : Symbol.startsAsNumber token = true := by
  obtain ⟨c, token, rfl⟩ := List.exists_cons_of_ne_nil nonempty
  have behindSign (isSign : (c == '-' || c == '+') = true) (tail : token ++ rest = d :: more) :
      Symbol.startsAsNumber (c :: token) = true := by
    cases token with
    | nil =>
      obtain rfl : rest = d :: more := tail
      rw [apart.noDigit d rfl] at digit
      exact absurd digit (by decide)
    | cons e token =>
      obtain rfl : e = d := (List.cons.inj tail).1
      simp [Symbol.startsAsNumber, isSign, digit]
  cases signed with
  | absent =>
    obtain rfl : c = d := (List.cons.inj split).1
    cases token with
    | nil => exact digit
    | cons e token => simp [Symbol.startsAsNumber, digit]
  | plus =>
    obtain ⟨rfl, tail⟩ := List.cons.inj split
    exact behindSign rfl tail
  | minus =>
    obtain ⟨rfl, tail⟩ := List.cons.inj split
    exact behindSign rfl tail

theorem number?_name (valid : Symbol.isName token = true) (apart : Apart rest) :
    number? (token ++ rest) = none := by
  obtain ⟨nonempty, noNumber, -⟩ := isName_iff.mp valid
  cases read : number? (token ++ rest) with
  | none => rfl
  | some result =>
    obtain ⟨numeral, split, number, -⟩ := number?_sound read
    obtain ⟨sign, negative, d, more, rfl, signed, digit⟩ := number.lead
    rw [List.append_assoc, List.cons_append] at split
    have starts := startsAsNumber_of_lead nonempty apart split signed digit
    rw [noNumber] at starts
    exact absurd starts (by decide)

theorem atom?_number (valid : NumberToken token x) (apart : Apart rest)
    (noPoint : rest.head? ≠ some '.') : atom? (token ++ rest) = some (.number x, rest) := by
  simp only [atom?, valid.number?_eq apart noPoint]

theorem atom?_name (valid : Symbol.isName token = true) (apart : Apart rest) :
    atom? (token ++ rest) = some (ofName (String.ofList token), rest) := by
  simp only [atom?, number?_name valid apart, name?_eq valid apart]

theorem atom?_sound {comments : Bool} {depth : Nat} {v : Value} (within : depth < maxDepth)
    (read : atom? s = some (v, rest)) : Expression comments depth s v rest := by
  unfold atom? at read
  split at read
  · rename_i number
    obtain ⟨rfl, rfl⟩ := Prod.mk.inj (Option.some.inj read)
    obtain ⟨token, rfl, valid, apart⟩ := number?_sound number
    exact .number within valid apart
  · obtain ⟨token, rfl, valid, apart, rfl⟩ := name?_sound read
    exact .name within valid apart

end

end CooperativeLisp.Reader

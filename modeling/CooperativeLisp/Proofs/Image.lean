import CooperativeLisp.Proofs.Joining
import CooperativeLisp.Proofs.Nesting

/-!
What the reader of programs can produce, and what becomes of it when it is written out. The lists
are nested as deep as the brackets and quote marks of the text, those of data twice as deep, and
the numbers are the doubles nearest to those of the text, some of them infinite. Main statement:
what has been read is written as a document just when all its numbers are finite, and its text is
read back as the same value just when it is also nested no deeper than the reader allows.
-/

namespace CooperativeLisp

open Reader

/-! ### Numbers -/

namespace Reader

/-- A number token, whether it has a minus, and the decimal behind its sign. -/
inductive Writes : List Char → Bool → Decimal → Prop where
  | whole {sign digits : List Char} {negative : Bool} (signed : Sign sign negative)
      (leading : Digits digits) : Writes (sign ++ digits) negative (Decimal.ofParts digits [] 0)
  | fractional {sign digits fraction : List Char} {negative : Bool} (signed : Sign sign negative)
      (leading : Digits digits) (trailing : Digits fraction) :
      Writes (sign ++ digits ++ '.' :: fraction) negative (Decimal.ofParts digits fraction 0)

theorem NumberToken.writes {token : List Char} {x : Float} (valid : NumberToken token x) :
    ∃ negative d, Writes token negative d ∧ x = d.toSigned negative := by
  cases valid with
  | whole signed leading => exact ⟨_, _, .whole signed leading, rfl⟩
  | fractional signed leading trailing => exact ⟨_, _, .fractional signed leading trailing, rfl⟩

end Reader

theorem Decoded.Rounds.negated {d : Decoded} {q : ℚ} (rounds : d.Rounds false q) :
    d.negated.Rounds true q := by
  cases rounds with
  | finite canonical signed below nearest even =>
    exact .finite canonical.negated (by simp [signed]) below nearest even
  | infinite beyond => exact .infinite beyond

theorem Decimal.toSigned_rounds (negative : Bool) (d : Decimal) :
    (Decoded.ofFloat (d.toSigned negative)).Rounds negative d.value := by
  cases negative with
  | false => exact d.toFloat_rounds
  | true =>
    have negated : Decoded.ofFloat (d.toSigned true) = (Decoded.ofFloat d.toFloat).negated :=
      Decoded.ofFloat_neg _
    exact negated ▸ d.toFloat_rounds.negated

theorem Decoded.Rounds.isFinite_iff {x : Float} {negative : Bool} {q : ℚ}
    (rounds : (Decoded.ofFloat x).Rounds negative q) : x.isFinite = true ↔ q < Binary.limit := by
  rw [Decoded.isFinite_iff]
  generalize Decoded.ofFloat x = d at rounds
  cases rounds with
  | @finite b _ _ below => exact ⟨fun _ => below, fun _ => ⟨b, rfl⟩⟩
  | infinite beyond =>
    refine ⟨fun found => ?_, fun below => absurd below (not_lt.mpr beyond)⟩
    obtain ⟨b, impossible⟩ := found
    exact absurd impossible nofun

/-- All numbers that occur in a value are finite. -/
def Value.Finite (v : Value) : Prop :=
  ∀ x, (number x).OccursIn v → x.isFinite = true

namespace Reader

section
variable {comments : Bool} {x : Float}

theorem number_in_quoted {v : Value} (inside : (Value.number x).OccursIn (quoted v)) :
    (Value.number x).OccursIn v := by
  cases inside with
  | item member within =>
    rcases List.mem_cons.mp member with rfl | member
    · exact nomatch within
    · obtain rfl := List.mem_singleton.mp member
      exact within

theorem number_in_bracket {b : Bracket} {vs : List Value}
    (inside : (Value.number x).OccursIn (b.value vs)) : ∃ v ∈ vs, (Value.number x).OccursIn v := by
  have list (inside : (Value.number x).OccursIn (.list vs)) :
      ∃ v ∈ vs, (Value.number x).OccursIn v := by
    cases inside with
    | item member within => exact ⟨_, member, within⟩
  cases b with
  | round => exact list inside
  | square => exact list (number_in_quoted inside)

theorem number_in_name {name : String} : ¬ (Value.number x).OccursIn (ofName name) := by
  unfold ofName
  split
  · exact nofun
  · split <;> exact nofun

mutual

/-- The numbers of an expression come from number tokens of the text. -/
theorem Expression.numbers {depth : Nat} {s rest : List Char} {v : Value}
    (e : Expression comments depth s v rest) :
    ∀ x, (Value.number x).OccursIn v → ∃ token, token <:+: s ∧ NumberToken token x := by
  match e with
  | .number _ valid _ =>
    intro x inside
    cases inside
    exact ⟨_, (List.prefix_append _ _).isInfix, valid⟩
  | .name _ _ _ => exact fun x inside => absurd inside number_in_name
  | .bracket _ elements =>
    intro x inside
    obtain ⟨v, member, inside⟩ := number_in_bracket inside
    obtain ⟨token, part, valid⟩ := elements.numbers v member x inside
    exact ⟨token, part.trans (List.suffix_cons _ _).isInfix, valid⟩
  | .quote _ layout operand =>
    intro x inside
    obtain ⟨token, part, valid⟩ := operand.numbers x (number_in_quoted inside)
    have behind := layout.suffix.trans (List.suffix_cons '\'' _)
    exact ⟨token, part.trans behind.isInfix, valid⟩

theorem Elements.numbers {depth : Nat} {b : Bracket} {s rest : List Char} {vs : List Value}
    (es : Elements comments depth b s vs rest) : ∀ v ∈ vs, ∀ x, (Value.number x).OccursIn v →
      ∃ token, token <:+: s ∧ NumberToken token x := by
  match es with
  | .close _ => exact nofun
  | .cons layout head more =>
    refine List.forall_mem_cons.mpr ⟨fun x inside => ?_, fun v member x inside => ?_⟩
    · obtain ⟨token, part, valid⟩ := head.numbers x inside
      exact ⟨token, part.trans layout.suffix.isInfix, valid⟩
    · obtain ⟨token, part, valid⟩ := more.numbers v member x inside
      exact ⟨token, part.trans (head.suffix.trans layout.suffix).isInfix, valid⟩

end

end

end Reader

/-! ### Writing out what has been read -/

section
variable {comments : Bool} {text : String} {v : Value}

theorem Value.every_legible (named : v.Every Named) : v.Every Legible ↔ v.Finite := by
  refine ⟨fun legible x inside => legible _ inside, fun finite w inside => ?_⟩
  match w with
  | .number x => exact finite x inside
  | .symbol _ | .nil | .truth | .list _ | .callable _ => exact named _ inside

theorem Json.write_ok_iff (named : v.Every Value.Named) :
    (∃ document, Json.write v = .ok document) ↔ v.Finite := by
  have noCallable (c : Callable) : ¬ (Value.callable c).OccursIn v := fun inside => named _ inside
  have writable : v.Every Value.Writable ↔ v.Finite := by
    rw [Json.every_writable]
    exact and_iff_right noCallable
  rw [← writable]
  constructor
  · rintro ⟨document, written⟩
    by_contra unwritable
    obtain ⟨e, refused⟩ := Json.write_error_iff.mpr unwritable
    exact absurd (written.symm.trans refused) nofun
  · intro all
    obtain ⟨document, written, -⟩ := Json.appendTo_ok v all ""
    exact ⟨document, written⟩

theorem readOne_display_named (named : v.Every Value.Named) :
    readOne comments v.display = .ok v ↔ v.Finite ∧ v.level < maxDepth := by
  rw [Value.readOne_display named, ← Value.every_legible named, ← Value.readBack_eq_iff v named]
  by_cases within : v.level < maxDepth
  · rw [if_pos within, and_iff_left within]
    exact ⟨Except.ok.inj, congrArg Except.ok⟩
  · rw [if_neg within]
    exact ⟨fun read => absurd read (by simp), fun both => absurd both.2 within⟩

/-- What is read holds lists that are nested as the brackets and quote marks of the text are, with
those of data counted twice, and numbers that are the doubles nearest to those of the text. Its text
is read back as the same value just when its numbers are finite and it is nested less deep than the
reader allows, as it always is without data; and it is written as a document just when its numbers
are finite. -/
theorem readOne_image (read : readOne comments text = .ok v) :
    (∀ n, (v.depth ≤ n ↔ ∀ opened rest, Comes comments [] text.toList opened rest →
        lists opened ≤ n) ∧
      (v.level ≤ n ↔ ∀ opened rest, Comes comments [] text.toList opened rest →
        Allows comments 1 n opened rest)) ∧
    (∀ opened rest, Comes comments [] text.toList opened rest → opened.length ≤ maxDepth) ∧
    v.depth ≤ 2 * maxDepth ∧
    ('[' ∉ text.toList → v.depth ≤ maxDepth ∧ v.level < maxDepth) ∧
    (∀ x, (Value.number x).OccursIn v → ∃ token negative d, token <:+: text.toList ∧
      Writes token negative d ∧ (Decoded.ofFloat x).Rounds negative d.value ∧
      (x.isFinite = true ↔ d.value < Binary.limit)) ∧
    (∀ again, readOne again v.display = .ok v ↔ v.Finite ∧ v.level < maxDepth) ∧
    ((∃ document, Json.write v = .ok document) ↔ v.Finite) := by
  have named := Value.named_of_readOne read
  refine ⟨fun n => ⟨depth_of_readOne read n, level_of_readOne read n⟩,
    fun opened rest comes => comes.length_le (Nat.zero_le _), depth_le_of_readOne read,
    nested_of_readOne read, fun x inside => ?_, fun again => readOne_display_named named,
    Json.write_ok_iff named⟩
  obtain ⟨rest, inText⟩ := readInside_of_readOne read
  obtain ⟨inner, layout, e⟩ := Expression.of_readExpression inText
  obtain ⟨token, part, valid⟩ := e.numbers x inside
  obtain ⟨negative, d, written, rfl⟩ := valid.writes
  have rounds := d.toSigned_rounds negative
  exact ⟨token, negative, d, part.trans layout.suffix.isInfix, written, rounds,
    rounds.isFinite_iff⟩

end

/-- A list of data with one number. -/
theorem readOne_image_data :
    readOne true "[7]" = .ok (quoted (.list [.number 7])) ∧
    (quoted (.list [.number 7])).depth ≤ 2 * maxDepth ∧
    readOne true (quoted (.list [.number 7])).display = .ok (quoted (.list [.number 7])) ∧
    ∃ document, Json.write (quoted (.list [.number 7])) = .ok document := by
  have seven : (Decimal.ofParts ['7'] [] 0).toSigned false = 7 := by decide +kernel
  have digits : Digits ['7'] := ⟨by simp, by simp⟩
  have token : NumberToken ['7'] 7 := seven ▸ .whole .absent digits
  have element : Expression true 1 (['7'] ++ [']']) (.number 7) [']'] :=
    .number (by decide) token (Value.apart_cons rfl)
  have elements : Elements true 1 .square "7]".toList [.number 7] [] :=
    .cons .none element (.close .none)
  have read : readOne true "[7]" = .ok (quoted (.list [.number 7])) :=
    readOne_ok_iff.mpr (.cons .none (.bracket (by decide) elements) (.done .none))
  obtain ⟨-, -, shallow, -, -, again, document⟩ := readOne_image read
  have finite : (quoted (.list [.number 7])).Finite := by
    intro x inside
    obtain ⟨v, member, within⟩ := number_in_bracket (b := .square) inside
    obtain rfl := List.mem_singleton.mp member
    cases within
    decide +kernel
  exact ⟨read, shallow, (again true).mpr ⟨finite, by decide⟩, document.mpr finite⟩

/-! ### What is not read back -/

section
variable {comments : Bool}

/-- The elements of a bracket of data with `n` more inside of it. -/
def nestedData : Nat → List Value
  | 0 => []
  | n + 1 => [quoted (.list (nestedData n))]

theorem nestedData_elements {depth n : Nat} {rest : List Char} (within : depth + n ≤ maxDepth) :
    Elements comments depth .square
      (List.replicate n '[' ++ (List.replicate n ']' ++ ']' :: rest)) (nestedData n) rest := by
  induction n generalizing depth rest with
  | zero => exact .close .none
  | succ n ih =>
    have inner : Elements comments (depth + 1) .square _ (nestedData n) (']' :: rest) :=
      ih (by omega)
    rw [List.replicate_succ, List.replicate_succ', List.append_assoc]
    exact .cons .none (.bracket (by omega) inner) (.close .none)

theorem nestedData_depth (n : Nat) : (quoted (.list (nestedData n))).depth = 2 * n + 2 := by
  induction n with
  | zero => rfl
  | succ n ih =>
    simp only [quoted, Value.depth, Value.deepest, nestedData] at ih ⊢
    omega

theorem nestedData_level (n : Nat) : (quoted (.list (nestedData n))).level = 2 * n + 1 := by
  induction n with
  | zero => rfl
  | succ n ih =>
    simp only [quoted, Value.level, Value.highest, nestedData] at ih ⊢
    omega

theorem readOne_digits {digits : List Char} (all : Digits digits) :
    readOne comments (String.ofList digits) =
      .ok (.number ((Decimal.ofParts digits [] 0).toSigned false)) := by
  have token : NumberToken digits _ := .whole .absent all
  have e : Expression comments 0 (digits ++ []) (.number _) [] :=
    .number (by decide) token (by simp [Apart])
  rw [List.append_nil] at e
  rw [readOne_ok_iff, String.toList_ofList]
  exact .cons .none e (.done .none)

end

/-- Data in 65 brackets is nested deeper than the reader allows, and a one with 400 zeros is read as
an infinite number; neither is read back from its text. -/
theorem readOne_not_reread :
    (∃ v, readOne false (String.ofList (List.replicate 65 '[' ++ List.replicate 65 ']')) = .ok v ∧
      maxDepth < v.depth ∧ readOne false v.display ≠ .ok v) ∧
    ∃ v, readOne false (String.ofList ('1' :: List.replicate 400 '0')) = .ok v ∧
      ¬ v.Finite ∧ readOne false v.display ≠ .ok v ∧ ¬ ∃ document, Json.write v = .ok document := by
  constructor
  · have elements : Elements false 1 .square
        (List.replicate 64 '[' ++ (List.replicate 64 ']' ++ ']' :: [])) (nestedData 64) [] :=
      nestedData_elements (by decide)
    have read : readOne false (String.ofList (List.replicate 65 '[' ++ List.replicate 65 ']')) =
        .ok (quoted (.list (nestedData 64))) := by
      rw [readOne_ok_iff, String.toList_ofList]
      exact .cons .none (.bracket (by decide) elements) (.done .none)
    refine ⟨_, read, ?_, fun again => ?_⟩
    · rw [nestedData_depth]
      decide
    · have shallow := ((readOne_display_named (Value.named_of_readOne read)).mp again).2
      rw [nestedData_level] at shallow
      exact absurd shallow (by decide)
  · have digits : Digits ('1' :: List.replicate 400 '0') := by
      refine ⟨nofun, List.forall_mem_cons.mpr ⟨rfl, fun c member => ?_⟩⟩
      rw [List.eq_of_mem_replicate member]
      rfl
    have read : readOne false (String.ofList ('1' :: List.replicate 400 '0')) = _ :=
      readOne_digits digits
    have named := Value.named_of_readOne read
    have infinite : ¬ (Value.number ((Decimal.ofParts ('1' :: List.replicate 400 '0') [] 0).toSigned
        false)).Finite := fun finite => absurd (finite _ .self) (by decide +kernel)
    exact ⟨_, read, infinite, fun again => infinite ((readOne_display_named named).mp again).1,
      fun document => infinite ((Json.write_ok_iff named).mp document)⟩

end CooperativeLisp

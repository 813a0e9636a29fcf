import CooperativeLisp.Json.Program
import CooperativeLisp.Proofs.Numerals
import CooperativeLisp.Proofs.Printing

/-!
Values as documents. Main statement: a value is refused just when a callable or a number that is
not finite occurs in it, and what is written of a value whose names and depth the reader allows is
read back as the value itself, except that zeros lose their sign.
-/

namespace CooperativeLisp

/-- A number without the sign of zero. -/
def Number.plain (x : Float) : Float :=
  if wholeNumber? x = some 0 then 0.0 else x

namespace Value

/-- A value that is no list has a form in documents. -/
def Writable : Value → Prop
  | number x => x.isFinite = true
  | callable _ => False
  | _ => True

mutual

/-- A value with the sign of all zeros dropped. -/
def plainZeros : Value → Value
  | number x => number (Number.plain x)
  | list vs => list (plainZerosAll vs)
  | v => v

def plainZerosAll : List Value → List Value
  | [] => []
  | v :: vs => v.plainZeros :: plainZerosAll vs

end

mutual

/-- The characters of a value as a document. -/
def documentChars : Value → List Char
  | number x => ((Number.documentText? x).getD "").toList
  | symbol name => (Json.writtenString name).toList
  | nil => (Json.writtenString Symbol.nilName).toList
  | truth => (Json.writtenString Symbol.truthName).toList
  | list [] => ['[', ']']
  | list (v :: vs) => '[' :: (v.documentChars ++ (documentCharsBehind vs ++ [']']))
  | callable _ => []

/-- The characters of further elements of an array, each behind a comma. -/
def documentCharsBehind : List Value → List Char
  | [] => []
  | v :: vs => ',' :: (v.documentChars ++ documentCharsBehind vs)

end

mutual

/-- The document that a value is written as. -/
def document : Value → Json.Document
  | number x => .number (Number.plain x)
  | symbol name => .string name
  | nil => .string Symbol.nilName
  | truth => .string Symbol.truthName
  | list vs => .array (documents vs)
  | callable _ => .null

def documents : List Value → List Json.Document
  | [] => []
  | v :: vs => v.document :: documents vs

end

end Value

namespace Json

open Reader Value

/-! ### Writing -/

mutual

theorem appendTo_ok (v : Value) (writable : v.Every Writable) (shown : String) :
    ∃ text, appendTo shown v = .ok text ∧ text.toList = shown.toList ++ v.documentChars := by
  match v with
  | .number x =>
    obtain ⟨text, same⟩ := documentText_isSome.mpr (writable _ .self)
    refine ⟨shown ++ text, by rw [appendTo, same], ?_⟩
    rw [documentChars, same, String.toList_append]
    rfl
  | .symbol name => exact ⟨_, rfl, String.toList_append⟩
  | .nil => exact ⟨_, rfl, String.toList_append⟩
  | .truth => exact ⟨_, rfl, String.toList_append⟩
  | .list [] => exact ⟨_, rfl, String.toList_append⟩
  | .list (v :: vs) =>
    obtain ⟨-, inner⟩ := every_list.mp writable
    obtain ⟨first, head, headText⟩ := appendTo_ok v (inner v List.mem_cons_self) (shown ++ "[")
    obtain ⟨all, more, moreText⟩ :=
      appendAll_ok vs (fun u member => inner u (List.mem_cons_of_mem v member)) first
    refine ⟨all ++ "]", by rw [appendTo, head]; dsimp only; rw [more], ?_⟩
    simp [documentChars, headText, moreText]
  | .callable _ => exact absurd (writable _ .self) nofun

theorem appendAll_ok (vs : List Value) (writable : ∀ v ∈ vs, v.Every Writable) (shown : String) :
    ∃ text, appendAll shown vs = .ok text ∧
      text.toList = shown.toList ++ documentCharsBehind vs := by
  match vs with
  | [] => exact ⟨shown, rfl, (List.append_nil _).symm⟩
  | v :: vs =>
    obtain ⟨first, head, headText⟩ :=
      appendTo_ok v (writable v List.mem_cons_self) (shown ++ ",")
    obtain ⟨all, more, moreText⟩ :=
      appendAll_ok vs (fun u member => writable u (List.mem_cons_of_mem v member)) first
    refine ⟨all, by rw [appendAll, head]; exact more, ?_⟩
    simp [documentCharsBehind, headText, moreText]

end

mutual

theorem appendTo_error (v : Value) (unwritable : ¬ v.Every Writable) (shown : String) :
    ∃ e, appendTo shown v = .error e ∧ e.fault.kind = .type := by
  match v with
  | .number x =>
    have none : Number.documentText? x = none := by
      rw [every_atom (by simp), Writable, ← documentText_isSome] at unwritable
      exact Option.eq_none_iff_forall_ne_some.mpr (not_exists.mp unwritable)
    exact ⟨_, by rw [appendTo, none], rfl⟩
  | .symbol _ | .nil | .truth => exact absurd ((every_atom (by simp)).mpr trivial) unwritable
  | .list [] => exact absurd (every_list.mpr ⟨trivial, nofun⟩) unwritable
  | .list (v :: vs) =>
    by_cases first : v.Every Writable
    · obtain ⟨start, head, -⟩ := appendTo_ok v first (shown ++ "[")
      have inner : ¬ ∀ u ∈ vs, u.Every Writable := fun rest =>
        unwritable (every_list.mpr ⟨trivial, List.forall_mem_cons.mpr ⟨first, rest⟩⟩)
      obtain ⟨e, refused, kind⟩ := appendAll_error vs inner start
      exact ⟨e, by rw [appendTo, head]; dsimp only; rw [refused], kind⟩
    · obtain ⟨e, refused, kind⟩ := appendTo_error v first (shown ++ "[")
      exact ⟨e, by rw [appendTo, refused], kind⟩
  | .callable c => exact ⟨_, rfl, rfl⟩

theorem appendAll_error (vs : List Value) (unwritable : ¬ ∀ v ∈ vs, v.Every Writable)
    (shown : String) : ∃ e, appendAll shown vs = .error e ∧ e.fault.kind = .type := by
  match vs with
  | [] => exact absurd nofun unwritable
  | v :: vs =>
    by_cases first : v.Every Writable
    · obtain ⟨start, head, -⟩ := appendTo_ok v first (shown ++ ",")
      have inner : ¬ ∀ u ∈ vs, u.Every Writable := fun rest =>
        unwritable (List.forall_mem_cons.mpr ⟨first, rest⟩)
      obtain ⟨e, refused, kind⟩ := appendAll_error vs inner start
      exact ⟨e, by rw [appendAll, head]; exact refused, kind⟩
    · obtain ⟨e, refused, kind⟩ := appendTo_error v first (shown ++ ",")
      exact ⟨e, by rw [appendAll, refused], kind⟩

end

/-! ### Strings -/

/-- A character that stands for itself inside a string, and is no single quote. -/
def IsPlain (c : Char) : Prop :=
  0x20 ≤ c.toNat ∧ c ≠ '"' ∧ c ≠ '\\' ∧ c ≠ '\''

section
variable {name : List Char} {rest : List Char}

theorem isPlain_of_isNameChar {c : Char} (named : Symbol.isNameChar c = true) : IsPlain c := by
  have other (d : Char) (unnamed : Symbol.isNameChar d = false) : c ≠ d := by
    rintro rfl
    rw [unnamed] at named
    exact absurd named (by decide)
  refine ⟨?_, other _ rfl, other _ rfl, other _ rfl⟩
  by_contra control
  have control : c.toNat < 0x20 := Nat.not_le.mp control
  rcases Bool.or_eq_true_iff.mp named with alphanumeric | sign
  · rw [Text.isAlphanumeric_ascii (by omega), ← Char.ofNat_toNat c] at alphanumeric
    have unnamed : ∀ n < 0x20, ¬ (Char.ofNat n).isAlphanum = true := by decide
    exact unnamed c.toNat control alphanumeric
  · have visible : Symbol.signs.all (fun d => decide (0x20 ≤ d.toNat)) = true := by decide
    have here := List.all_eq_true.mp visible c (List.contains_iff_mem.mp sign)
    exact Nat.not_le.mpr control (of_decide_eq_true here)

theorem plain_of_isName {name : String} (valid : Symbol.isName name.toList = true) :
    ∀ c ∈ name.toList, IsPlain c :=
  fun c member => isPlain_of_isNameChar ((isName_iff.mp valid).2.2 c member)

theorem writtenChar_plain {c : Char} (plain : IsPlain c) : writtenChar c = c.toString := by
  obtain ⟨visible, noQuote, noBackslash, -⟩ := plain
  have other (d : Char) (control : d.toNat < 0x20) : c ≠ d := by
    rintro rfl
    omega
  unfold writtenChar
  split
  · exact absurd rfl noQuote
  · exact absurd rfl noBackslash
  · exact absurd rfl (other '\n' (by decide))
  · exact absurd rfl (other '\r' (by decide))
  · exact absurd rfl (other '\t' (by decide))
  · exact absurd rfl (other '\x08' (by decide))
  · exact absurd rfl (other '\x0c' (by decide))
  · exact if_neg (Nat.not_lt.mpr visible)

theorem writtenString_plain (s : String) (plain : ∀ c ∈ s.toList, IsPlain c) :
    (writtenString s).toList = '"' :: (s.toList ++ ['"']) := by
  have all (cs : List Char) (plain : ∀ c ∈ cs, IsPlain c) (shown : String) :
      (cs.foldl (fun shown c => shown ++ writtenChar c) shown).toList = shown.toList ++ cs := by
    induction cs generalizing shown with
    | nil => simp
    | cons c cs ih =>
      rw [List.foldl_cons, ih (fun d member => plain d (List.mem_cons_of_mem c member)),
        writtenChar_plain (plain c List.mem_cons_self)]
      simp
  rw [writtenString, String.foldl_eq_foldl_toList, String.toList_append, all s.toList plain]
  simp

theorem stringEnd?_plain (plain : ∀ c ∈ name, IsPlain c) (seen : List Char) :
    stringEnd? seen (name ++ '"' :: rest) = some (String.ofList (seen.reverse ++ name), rest) := by
  induction name generalizing seen with
  | nil => simp [stringEnd?]
  | cons c name ih =>
    obtain ⟨visible, noQuote, noBackslash, -⟩ := plain c List.mem_cons_self
    have next : stringEnd? seen (c :: (name ++ '"' :: rest)) =
        stringEnd? (c :: seen) (name ++ '"' :: rest) := by
      rw [stringEnd?.eq_def]
      split
      · exact absurd (List.cons.inj ‹_›).1 noQuote
      · exact absurd (List.cons.inj ‹_›).1 noBackslash
      · exact absurd (List.cons.inj ‹_›).1 noBackslash
      · exact absurd (List.cons.inj ‹_›).1 noBackslash
      · rename_i first
        obtain ⟨rfl, rfl⟩ := List.cons.inj first
        exact if_neg (by simp [noBackslash, Nat.not_lt.mpr visible])
      · exact absurd ‹_› (List.cons_ne_nil _ _)
    rw [List.cons_append, next, ih (fun d member => plain d (List.mem_cons_of_mem c member))]
    simp

end

/-! ### Single moves -/

section
variable {opened outer : List Open} {around : Open} {s rest : List Char} {d e : Document}
variable {fuel : ℕ}

theorem readInside?_complete (move : nextDocument? opened s = some (.complete opened d rest)) :
    readInside? (fuel + 1) opened none s = readInside? fuel opened (some d) rest := by
  rw [readInside?]
  · simp [move]
  · simp
  · exact nofun

theorem readInside?_expect (move : nextDocument? opened s = some (.expect outer rest)) :
    readInside? (fuel + 1) opened none s = readInside? fuel outer none rest := by
  rw [readInside?]
  · simp [move]
  · simp
  · exact nofun

theorem readInside?_next (move : nextSeparator? around outer d s = some (.expect opened rest)) :
    readInside? (fuel + 1) (around :: outer) (some d) s = readInside? fuel opened none rest := by
  rw [readInside?]
  · simp [move]

theorem readInside?_close
    (move : nextSeparator? around outer d s = some (.complete opened e rest)) :
    readInside? (fuel + 1) (around :: outer) (some d) s =
      readInside? fuel opened (some e) rest := by
  rw [readInside?]
  · simp [move]

theorem skipBlanks_cons {c : Char} (visible : isLayout c = false) :
    skipBlanks (c :: s) = c :: s := by
  simp [skipBlanks, visible]

theorem nextDocument?_array {c : Char} (room : opened.length < maxOpen)
    (visible : isLayout c = false) (inhabited : c ≠ ']') :
    nextDocument? opened ('[' :: c :: s) = some (.expect (.array [] :: opened) (c :: s)) := by
  have bracket : skipBlanks ('[' :: c :: s) = '[' :: c :: s := skipBlanks_cons rfl
  simp [nextDocument?, bracket, skipBlanks_cons visible, Nat.not_le.mpr room, inhabited]

/-- The first character of a document that is neither array nor object. -/
def StartsScalar (c : Char) : Prop :=
  c = '-' ∨ c = '"' ∨ c.isDigit = true

theorem StartsScalar.ne {c : Char} (starts : StartsScalar c) (d : Char)
    (other : d ≠ '-' ∧ d ≠ '"' ∧ d.isDigit = false) : c ≠ d := by
  rintro rfl
  rcases starts with minus | quote | digit
  · exact other.1 minus
  · exact other.2.1 quote
  · rw [other.2.2] at digit
    exact absurd digit (by decide)

theorem StartsScalar.visible {c : Char} (starts : StartsScalar c) : isLayout c = false := by
  rw [← Bool.not_eq_true, isLayout_iff]
  rintro (blank | blank | blank | blank) <;> exact starts.ne _ (by decide) blank

theorem scalar?_string {name : List Char} (plain : ∀ c ∈ name, IsPlain c) :
    scalar? ('"' :: (name ++ '"' :: rest)) = some (.string (String.ofList name), rest) := by
  simp [scalar?, stringEnd?_plain plain]

theorem Numeral.Wellformed.starts {n : Numeral} (valid : n.Wellformed) :
    ∃ c more, n.chars = c :: more ∧ (c = '-' ∨ c.isDigit = true) := by
  obtain ⟨d, tail, whole, digit⟩ := first_digit valid.whole
  rw [Numeral.chars, whole]
  cases n.negative with
  | true => exact ⟨'-', _, rfl, .inl rfl⟩
  | false => exact ⟨d, _, rfl, .inr digit⟩

theorem scalar?_numeral {n : Numeral} (valid : n.Wellformed) (ends : Ends rest) :
    scalar? (n.chars ++ rest) = n.toFloat?.map fun x => (.number x, rest) := by
  obtain ⟨c, more, first, starts⟩ := valid.starts
  have other (d : Char) (unfit : d ≠ '-' ∧ d.isDigit = false) : c ≠ d := by
    rintro rfl
    rcases starts with minus | digit
    · exact unfit.1 minus
    · rw [unfit.2] at digit
      exact absurd digit (by decide)
  have read := valid.numeral?_eq ends
  rw [first, List.cons_append] at read ⊢
  rw [scalar?.eq_def]
  split
  · exact absurd (List.cons.inj ‹_›).1 (other 'n' (by decide))
  · exact absurd (List.cons.inj ‹_›).1 (other 't' (by decide))
  · exact absurd (List.cons.inj ‹_›).1 (other 'f' (by decide))
  · exact absurd (List.cons.inj ‹_›).1 (other '"' (by decide))
  · simp only [read, Option.bind_eq_bind, Option.bind_some]
    cases n.toFloat? <;> rfl

theorem nextDocument?_scalar {c : Char} (starts : StartsScalar c) :
    nextDocument? opened (c :: s) = (scalar? (c :: s)).map fun r => .complete opened r.1 r.2 := by
  unfold nextDocument?
  rw [skipBlanks_cons starts.visible]
  split
  · rename_i first
    exact absurd (List.cons.inj first).1 (starts.ne '[' (by decide))
  · rename_i first
    exact absurd (List.cons.inj first).1 (starts.ne '\x7b' (by decide))
  · cases scalar? (c :: s) <;> rfl

end

/-! ### Reading what is written -/

/-- The text of a number is converted to a number. -/
def Converts (x y : Float) : Prop :=
  ∃ text n, Number.documentText? x = some text ∧ Numeral.Wellformed n ∧ text.toList = n.chars ∧
    n.toFloat? = some y

/-- A value that is no list is read back from its text in a document. -/
def Documented : Value → Prop
  | .number x => Converts x (Number.plain x)
  | v => v.Named

section
variable {rest : List Char}

theorem ends_nil : Ends [] :=
  nofun

theorem ends_cons {c : Char} (other : c.isDigit = false ∧ c ≠ '.' ∧ c ≠ 'e' ∧ c ≠ 'E') :
    Ends (c :: rest) := by
  rintro d first
  obtain rfl : c = d := Option.some.inj first
  exact other

/-- The text of a value that is no list is read as one token. -/
theorem atom_scalar (v : Value) (documented : Documented v) (atom : ∀ vs, v ≠ .list vs)
    (ends : Ends rest) : ∃ c more, v.documentChars = c :: more ∧ StartsScalar c ∧
      scalar? (v.documentChars ++ rest) = some (v.document, rest) := by
  have string (name : String) (plain : ∀ c ∈ name.toList, IsPlain c) :
      ∃ c more, (writtenString name).toList = c :: more ∧ StartsScalar c ∧
        scalar? ((writtenString name).toList ++ rest) = some (.string name, rest) := by
    have read : scalar? ('"' :: (name.toList ++ '"' :: rest)) = some (_, rest) :=
      scalar?_string plain
    rw [String.ofList_toList] at read
    refine ⟨'"', _, writtenString_plain name plain, .inr (.inl rfl), ?_⟩
    rw [writtenString_plain name plain, List.cons_append, List.append_assoc]
    exact read
  match v with
  | .number x =>
    obtain ⟨text, n, shown, valid, chars, converted⟩ := documented
    obtain ⟨c, more, first, starts⟩ := valid.starts
    have same : (Value.number x).documentChars = n.chars := by
      rw [documentChars, shown, ← chars]
      rfl
    rw [same]
    refine ⟨c, more, first, starts.imp_right .inr, ?_⟩
    rw [scalar?_numeral valid ends, converted]
    rfl
  | .symbol name => exact string name (plain_of_isName documented.1)
  | .nil => exact string Symbol.nilName (plain_of_isName (by decide))
  | .truth => exact string Symbol.truthName (plain_of_isName (by decide))
  | .list vs => exact absurd rfl (atom vs)
  | .callable _ => exact absurd documented nofun

/-- The text of a value neither starts with a blank nor closes a bracket. -/
theorem documentChars_starts (v : Value) (documented : Documented v) :
    ∃ c more, v.documentChars = c :: more ∧ isLayout c = false ∧ c ≠ ']' := by
  have scalar (atom : ∀ vs, v ≠ .list vs) :
      ∃ c more, v.documentChars = c :: more ∧ isLayout c = false ∧ c ≠ ']' := by
    obtain ⟨c, more, first, starts, -⟩ := atom_scalar v documented atom ends_nil
    exact ⟨c, more, first, starts.visible, starts.ne ']' (by decide)⟩
  match v with
  | .list [] => exact ⟨'[', _, rfl, rfl, by decide⟩
  | .list (_ :: _) => exact ⟨'[', _, rfl, rfl, by decide⟩
  | .number _ | .symbol _ | .nil | .truth | .callable _ => exact scalar (by simp)

theorem ends_behind (vs : List Value) : Ends (documentCharsBehind vs ++ (']' :: rest)) := by
  cases vs with
  | nil => exact ends_cons (by decide)
  | cons v vs =>
    rw [documentCharsBehind, List.cons_append]
    exact ends_cons (by decide)

theorem deepest_le {bound n : ℕ} {vs : List Value} :
    deepest bound vs ≤ n ↔ bound ≤ n ∧ ∀ v ∈ vs, v.depth ≤ n := by
  induction vs generalizing bound with
  | nil => simp [deepest]
  | cons v vs ih => rw [deepest, ih, max_le_iff, List.forall_mem_cons, and_assoc]

theorem depth_list_le {n : ℕ} {vs : List Value} :
    (Value.list vs).depth ≤ n + 1 ↔ ∀ v ∈ vs, v.depth ≤ n := by
  rw [depth, Nat.add_le_add_iff_right, deepest_le]
  exact and_iff_right (Nat.zero_le n)

mutual

/-- What is written of a value is read as its document, inside of whatever is open. -/
theorem reads {rest : List Char} {fuel : ℕ} (opened : List Open) (v : Value)
    (documented : v.Every Documented) (within : opened.length + v.depth ≤ maxOpen)
    (ends : Ends rest) (enough : (v.documentChars ++ rest).length < fuel) :
    ∃ left, rest.length < left ∧ readInside? fuel opened none (v.documentChars ++ rest) =
      readInside? left opened (some v.document) rest := by
  obtain ⟨fuel, rfl⟩ := Nat.exists_eq_add_of_lt (Nat.zero_lt_of_lt enough)
  rw [Nat.zero_add] at enough ⊢
  have scalar (atom : ∀ vs, v ≠ .list vs) :
      ∃ left, rest.length < left ∧ readInside? (fuel + 1) opened none (v.documentChars ++ rest) =
        readInside? left opened (some v.document) rest := by
    obtain ⟨c, more, first, starts, read⟩ := atom_scalar v (documented v .self) atom ends
    rw [first, List.cons_append] at enough read ⊢
    exact ⟨fuel, by grind, readInside?_complete (by rw [nextDocument?_scalar starts, read]; rfl)⟩
  match v with
  | .list [] =>
    have room : ¬ maxOpen ≤ opened.length := Nat.not_le.mpr within
    refine ⟨fuel, by grind [documentChars], readInside?_complete ?_⟩
    simp [documentChars, nextDocument?, skipBlanks_cons, room, isLayout, document, documents]
  | .list (v :: vs) =>
    have room : opened.length < maxOpen :=
      Nat.lt_of_lt_of_le (Nat.lt_add_of_pos_right (Nat.succ_pos _)) within
    have inside : ∀ u ∈ v :: vs, opened.length + 1 + u.depth ≤ maxOpen := by
      intro u member
      have below := depth_list_le.mp (Nat.le_refl (deepest 0 (v :: vs) + 1)) u member
      rw [depth] at within
      omega
    obtain ⟨-, inner⟩ := every_list.mp documented
    obtain ⟨c, more, first, visible, inhabited⟩ :=
      documentChars_starts v (inner v List.mem_cons_self v .self)
    have opens : nextDocument? opened ((Value.list (v :: vs)).documentChars ++ rest) =
        some (.expect (.array [] :: opened)
          (v.documentChars ++ (documentCharsBehind vs ++ (']' :: rest)))) := by
      simpa [documentChars, first] using nextDocument?_array room visible inhabited
    have enough : (v.documentChars ++ (documentCharsBehind vs ++ (']' :: rest))).length < fuel := by
      simpa [documentChars] using enough
    obtain ⟨left, after, head⟩ := reads (.array [] :: opened) v
      (inner v List.mem_cons_self) (inside v List.mem_cons_self) (ends_behind vs) enough
    obtain ⟨left, after, tail⟩ := readsBehind vs (fun u member => inner u (.tail v member))
      (fun u member => inside u (.tail v member)) [] v.document after
    refine ⟨left, after, ?_⟩
    rw [readInside?_expect opens, head, tail]
    rfl
  | .number _ | .symbol _ | .nil | .truth | .callable _ => exact scalar (by simp)

theorem readsBehind {rest : List Char} {outer : List Open} {fuel : ℕ} (vs : List Value)
    (documented : ∀ v ∈ vs, v.Every Documented)
    (within : ∀ v ∈ vs, outer.length + 1 + v.depth ≤ maxOpen) (items : List Document)
    (d : Document) (enough : (documentCharsBehind vs ++ (']' :: rest)).length < fuel) :
    ∃ left, rest.length < left ∧
      readInside? fuel (.array items :: outer) (some d) (documentCharsBehind vs ++ (']' :: rest)) =
        readInside? left outer (some (.array ((d :: items).reverse ++ documents vs))) rest := by
  obtain ⟨fuel, rfl⟩ := Nat.exists_eq_add_of_lt (Nat.zero_lt_of_lt enough)
  rw [Nat.zero_add] at enough ⊢
  match vs with
  | [] =>
    refine ⟨fuel, by grind [documentCharsBehind], readInside?_close ?_⟩
    simp [documentCharsBehind, nextSeparator?, skipBlanks_cons, isLayout, documents]
  | v :: vs =>
    have goesOn : nextSeparator? (.array items) outer d
        (documentCharsBehind (v :: vs) ++ (']' :: rest)) =
          some (.expect (.array (d :: items) :: outer)
            (v.documentChars ++ (documentCharsBehind vs ++ (']' :: rest)))) := by
      simp [documentCharsBehind, nextSeparator?, skipBlanks_cons, isLayout]
    have enough : (v.documentChars ++ (documentCharsBehind vs ++ (']' :: rest))).length < fuel := by
      simpa [documentCharsBehind] using enough
    obtain ⟨left, after, head⟩ := reads (.array (d :: items) :: outer) v
      (documented v List.mem_cons_self) (within v List.mem_cons_self) (ends_behind vs) enough
    obtain ⟨left, after, tail⟩ := readsBehind vs (fun u member => documented u (.tail v member))
      (fun u member => within u (.tail v member)) (d :: items) v.document after
    refine ⟨left, after, ?_⟩
    rw [readInside?_next goesOn, head, tail]
    simp [documents]

end

/-- A text that holds one value is read as its document. -/
theorem read?_documentChars {v : Value} (documented : v.Every Documented)
    (within : v.depth ≤ maxOpen) : read? v.documentChars = some v.document := by
  have enough : (v.documentChars ++ []).length < v.documentChars.length + 1 := by
    rw [List.append_nil]
    exact Nat.lt_succ_self _
  have within : ([] : List Open).length + v.depth ≤ maxOpen := by
    rwa [List.length_nil, Nat.zero_add]
  obtain ⟨left, -, read⟩ := reads [] v documented within ends_nil enough
  rw [List.append_nil] at read
  rw [read?, read, readInside?]
  rfl

end

/-! ### Documents as values -/

mutual

theorem toValue_document (v : Value) (named : v.Every Named) :
    toValue v.document = .ok v.plainZeros := by
  match v with
  | .number _ | .nil | .truth => rfl
  | .symbol name =>
    obtain ⟨valid, notNil, notTruth⟩ := named _ .self
    simp [document, plainZeros, toValue, valid, ofName, notNil, notTruth]
  | .list vs =>
    rw [document, toValue, toValues_documents vs (every_list.mp named).2 []]
    rfl
  | .callable _ => exact absurd (named _ .self) nofun

theorem toValues_documents (vs : List Value) (named : ∀ v ∈ vs, v.Every Named)
    (before : List Value) :
    toValues before (documents vs) = .ok (before.reverse ++ plainZerosAll vs) := by
  match vs with
  | [] => rw [documents, toValues, plainZerosAll, List.append_nil]
  | v :: vs =>
    rw [documents, toValues, toValue_document v (named v List.mem_cons_self)]
    dsimp only
    rw [toValues_documents vs (fun u member => named u (.tail v member)), plainZerosAll]
    simp

end

/-! ### Single quotes -/

theorem Numeral.Wellformed.unquoted {n : Numeral} (valid : n.Wellformed) : '\'' ∉ n.chars := by
  have digits {s : List Char} (all : ∀ c ∈ s, c.isDigit = true) : '\'' ∉ s :=
    fun member => absurd (all _ member) (by decide)
  have whole : '\'' ∉ n.whole := by
    rcases valid.whole with zero | ⟨leading, -⟩
    · rw [zero]
      decide
    · exact digits leading.2
  have fraction := digits valid.fraction
  have power : '\'' ∉ exponentChars n.exponent := by
    cases shown : n.exponent with
    | none => exact nofun
    | some e =>
      have behind := digits (valid.exponent e.1 e.2 shown).2
      cases sign : e.1 <;> simp [exponentChars, sign, behind]
  cases n.negative <;> by_cases n.fraction = [] <;> simp [chars, *]

theorem unquoted_writtenString {name : String} (plain : ∀ c ∈ name.toList, IsPlain c) :
    '\'' ∉ (writtenString name).toList := by
  have inside : '\'' ∉ name.toList := fun member => (plain _ member).2.2.2 rfl
  simp [writtenString_plain name plain, inside]

mutual

theorem unquoted (v : Value) (documented : v.Every Documented) : '\'' ∉ v.documentChars := by
  match v with
  | .number x =>
    obtain ⟨text, n, shown, valid, chars, -⟩ := documented _ .self
    rw [documentChars, shown, Option.getD_some, chars]
    exact valid.unquoted
  | .symbol name => exact unquoted_writtenString (plain_of_isName (documented _ .self).1)
  | .nil => exact unquoted_writtenString (plain_of_isName (by decide))
  | .truth => exact unquoted_writtenString (plain_of_isName (by decide))
  | .list [] => decide
  | .list (v :: vs) =>
    obtain ⟨-, inner⟩ := every_list.mp documented
    have head := unquoted v (inner v List.mem_cons_self)
    have tail := unquotedBehind vs fun u member => inner u (.tail v member)
    simp [documentChars, head, tail]
  | .callable _ => exact nofun

theorem unquotedBehind (vs : List Value) (documented : ∀ v ∈ vs, v.Every Documented) :
    '\'' ∉ documentCharsBehind vs := by
  match vs with
  | [] => exact nofun
  | v :: vs =>
    have head := unquoted v (documented v List.mem_cons_self)
    have tail := unquotedBehind vs fun u member => documented u (.tail v member)
    simp [documentCharsBehind, head, tail]

end

/-- A program that was written is read as the value it was written from. -/
theorem readProgram_documentChars {v : Value} {text : String} (documented : v.Every Documented)
    (within : v.depth ≤ maxOpen) (shown : text.toList = v.documentChars) :
    readProgram text = .ok v.plainZeros := by
  have same : (text.toList.map fun c => if c = '\'' then '"' else c) = v.documentChars := by
    rw [shown]
    exact (List.map_congr_left fun c member =>
      if_neg (ne_of_mem_of_not_mem member (unquoted v documented))).trans (List.map_id' _)
  have named : v.Every Named := documented.imp fun w => by cases w <;> simp [Documented, Named]
  rw [readProgram, same, read?_documentChars documented within]
  exact toValue_document v named

/-! ### Numbers that come back -/

/-- A number whose text in a document stands for it: it is whole and below `2 ^ 63`, or its text is
read back as the same number. -/
def Restorable (x : Float) : Prop :=
  (∃ n, wholeNumber? x = some n ∧ n.natAbs < 2 ^ 63) ∨
    ∃ text, Number.documentText? x = some text ∧ read? text.toList = some (.number x)

/-- A numeral that is read as a number is converted to it. -/
theorem toFloat?_of_read? {n : Numeral} {x : Float} (valid : n.Wellformed)
    (read : read? n.chars = some (.number x)) : n.toFloat? = some x := by
  obtain ⟨c, more, first, starts⟩ := valid.starts
  have scalar := scalar?_numeral valid ends_nil
  rw [List.append_nil] at scalar
  have next : nextDocument? [] n.chars =
      n.toFloat?.map fun x => .complete [] (.number x) [] := by
    rw [first, nextDocument?_scalar (starts.imp_right .inr), ← first, scalar, Option.map_map]
    rfl
  cases converted : n.toFloat? with
  | none =>
    simp [read?, readInside?, next, converted] at read
  | some y =>
    have complete : readInside? (n.chars.length + 1) [] none n.chars = some (.number y, []) := by
      rw [readInside?_complete (by rw [next, converted]; rfl)]
      cases n.chars.length <;> rfl
    rw [read?, complete] at read
    cases read
    rfl

theorem Restorable.converts {x : Float} (restorable : Restorable x) :
    Converts x (Number.plain x) := by
  by_cases small : ∃ n, wholeNumber? x = some n ∧ n.natAbs < 2 ^ 63
  · obtain ⟨n, whole, small⟩ := small
    refine ⟨_, _, documentText_integer whole small, Numeral.ofInt_wellformed n,
      Numeral.ofInt_chars n, ?_⟩
    rw [Numeral.ofInt_toFloat? whole small, Number.plain, whole]
    simp only [Option.some_inj]
  · obtain ⟨text, shown, read⟩ := restorable.resolve_left small
    obtain ⟨n, valid, chars⟩ := documentText_numeral shown
    have nonzero : wholeNumber? x ≠ some 0 := fun zero => small ⟨0, zero, by decide⟩
    rw [Number.plain, if_neg nonzero]
    exact ⟨text, n, shown, valid, chars, toFloat?_of_read? valid (by rwa [← chars])⟩

theorem every_writable {v : Value} : v.Every Writable ↔
    (∀ c, ¬ (callable c).OccursIn v) ∧ ∀ x, (number x).OccursIn v → x.isFinite = true := by
  constructor
  · exact fun every => ⟨fun c inside => every _ inside, fun x inside => every _ inside⟩
  · rintro ⟨noCallable, finite⟩ w inside
    match w with
    | .number x => exact finite x inside
    | .callable c => exact noCallable c inside
    | .symbol _ | .nil | .truth | .list _ => trivial

theorem write_error_iff {v : Value} : (∃ e, write v = .error e) ↔ ¬ v.Every Writable := by
  refine ⟨?_, fun unwritable => ?_⟩
  · rintro ⟨e, refused⟩ writable
    obtain ⟨text, written, -⟩ := appendTo_ok v writable ""
    exact nomatch refused.symm.trans written
  · obtain ⟨e, refused, -⟩ := appendTo_error v unwritable ""
    exact ⟨e, refused⟩

theorem write_error_kind {v : Value} {e : Error} (refused : write v = .error e) :
    e.fault.kind = .type := by
  obtain ⟨e', refused', kind⟩ := appendTo_error v (write_error_iff.mp ⟨e, refused⟩) ""
  obtain rfl := Except.error.inj (refused.symm.trans refused')
  exact kind

theorem Documented.writable {v : Value} (documented : Documented v) : v.Writable := by
  match v with
  | .number x =>
    obtain ⟨text, -, shown, -⟩ := documented
    exact documentText_isSome.mp ⟨text, shown⟩
  | .callable _ => exact documented
  | .symbol _ | .nil | .truth | .list _ => trivial

theorem every_documented {v : Value} (named : v.Every Named)
    (restorable : ∀ x, (number x).OccursIn v → Restorable x) : v.Every Documented := by
  intro w inside
  match w with
  | .number x => exact (restorable x inside).converts
  | .symbol _ | .nil | .truth | .list _ | .callable _ => exact named _ inside

/-- Writing a value fails, with a type error, just when a callable or a number that is not finite
occurs in it. A value is read back from what is written, except that zeros lose their sign, when
all its symbols are names the reader can produce, its lists are nested at most 127 deep and the
text of each of its numbers stands for that number. -/
theorem readProgram_write (v : Value) :
    ((∃ e, write v = .error e) ↔
      (∃ c, (callable c).OccursIn v) ∨ ∃ x, (number x).OccursIn v ∧ ¬ x.isFinite = true) ∧
    (∀ e, write v = .error e → e.fault.kind = .type) ∧
    (v.Every Named → v.depth ≤ 127 → (∀ x, (number x).OccursIn v → Restorable x) →
      ∃ text, write v = .ok text ∧ readProgram text = .ok v.plainZeros) := by
  refine ⟨?_, fun e => write_error_kind, fun named within restorable => ?_⟩
  · rw [write_error_iff, every_writable, not_and_or]
    simp only [not_forall, not_not, exists_prop]
  · have documented := every_documented named restorable
    have writable := documented.imp fun _ => Documented.writable
    obtain ⟨text, written, shown⟩ := appendTo_ok v writable ""
    exact ⟨text, written, readProgram_documentChars documented within shown⟩

/-- A list with a name, both empty values, a negative zero and a fraction. -/
def mixed : Value :=
  list [symbol "f", nil, list [], number (-0.0), number 0.5]

theorem readProgram_write_mixed :
    ∃ text, write mixed = .ok text ∧ readProgram text =
      .ok (list [symbol "f", nil, list [], number 0.0, number 0.5]) := by
  have zero : wholeNumber? (-0.0) = some 0 := by decide +kernel
  have half : wholeNumber? 0.5 = none := by decide +kernel
  have restorable : Restorable (-0.0) ∧ Restorable 0.5 :=
    ⟨.inl ⟨0, zero, by decide⟩, .inr ⟨"0.5", by decide +kernel, by rfl⟩⟩
  have numbers : mixed.Every fun w => ∀ x, w = number x → Restorable x := by
    simpa [mixed, every_list, every_atom] using restorable
  have named : mixed.Every Named := by
    have name : (symbol "f").Named := ⟨by decide, by decide, by decide⟩
    simpa [mixed, every_list, every_atom, Named] using name
  have back := (readProgram_write mixed).2.2 named (by decide) fun x inside =>
    numbers _ inside x rfl
  simpa [mixed, plainZeros, plainZerosAll, Number.plain, zero, half] using back

end Json

end CooperativeLisp

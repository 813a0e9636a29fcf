import CooperativeLisp.Value.Printer
import CooperativeLisp.Proofs.Numbers
import CooperativeLisp.Proofs.Reading

/-!
The plain text of values and the reader of programs. Printer and reader share no definition, so
both are compared with the grammar. Main statement: the text of a value is read back as the same
value just when the value is nested less deep than the reader allows and all that occurs in it has
a written form of its own.
-/

namespace CooperativeLisp

open Reader

/-! ### What occurs in a value -/

namespace Value

/-- A value occurs in another one, at any depth. -/
inductive OccursIn (w : Value) : Value → Prop where
  | self : OccursIn w w
  | item {v : Value} {vs : List Value} (member : v ∈ vs) (inside : OccursIn w v) :
      OccursIn w (.list vs)

/-- All that occurs in a value is of some kind. -/
def Every (P : Value → Prop) (v : Value) : Prop :=
  ∀ w, w.OccursIn v → P w

/-- A value that is no list is a symbol the reader can produce, or no symbol and no callable. -/
def Named : Value → Prop
  | symbol name =>
    Symbol.isName name.toList = true ∧ name ≠ Symbol.nilName ∧ name ≠ Symbol.truthName
  | callable _ => False
  | _ => True

/-- A value that is no list has a written form of its own. -/
def Legible : Value → Prop
  | number x => x.isFinite = true
  | v => v.Named

mutual

/-- How deep a value is nested. The empty list counts as an atom. -/
def level : Value → Nat
  | list (v :: vs) => max v.level (highest vs) + 1
  | _ => 0

/-- The greatest level among some values. -/
def highest : List Value → Nat
  | [] => 0
  | v :: vs => max v.level (highest vs)

end

mutual

/-- What the text of a value denotes: numbers that are not finite come back as symbols. -/
def readBack : Value → Value
  | number x => if x.isFinite then number x else symbol (Number.text x)
  | list vs => list (readBackAll vs)
  | v => v

def readBackAll : List Value → List Value
  | [] => []
  | v :: vs => v.readBack :: readBackAll vs

end

section
variable {P Q : Value → Prop} {v : Value} {vs : List Value}

theorem every_atom (atom : ∀ vs, v ≠ .list vs) : v.Every P ↔ P v := by
  refine ⟨fun every => every v .self, fun holds w inside => ?_⟩
  cases inside with
  | self => exact holds
  | item => exact absurd rfl (atom _)

theorem every_list : (Value.list vs).Every P ↔ P (.list vs) ∧ ∀ v ∈ vs, v.Every P := by
  constructor
  · exact fun every => ⟨every _ .self, fun v member w inside => every w (.item member inside)⟩
  · rintro ⟨here, inner⟩ w inside
    cases inside with
    | self => exact here
    | item member inside => exact inner _ member w inside

theorem Every.imp (every : v.Every P) (weaker : ∀ w, P w → Q w) : v.Every Q :=
  fun w inside => weaker w (every w inside)

end

/-! ### The text of a value -/

mutual

/-- The characters of the text of a value. -/
def chars : Value → List Char
  | number x => (Number.text x).toList
  | symbol name => name.toList
  | nil => Symbol.nilName.toList
  | truth => Symbol.truthName.toList
  | list [] => ['(', ')']
  | list (v :: vs) => '(' :: (v.chars ++ (charsBehind vs ++ [')']))
  | callable c => c.display.toList

/-- The characters of further elements of a list, each behind a blank. -/
def charsBehind : List Value → List Char
  | [] => []
  | v :: vs => ' ' :: (v.chars ++ charsBehind vs)

end

mutual

theorem toList_appendTo (v : Value) (shown : String) :
    (v.appendTo shown).toList = shown.toList ++ v.chars := by
  match v with
  | number _ | symbol _ | callable _ => simp only [appendTo, chars, String.toList_append]
  | nil | truth | list [] =>
    simp only [appendTo, chars, String.toList_append]
    rfl
  | list (v :: vs) =>
    simp only [appendTo, chars, String.toList_append, toList_appendAll vs, toList_appendTo v]
    simp

theorem toList_appendAll (vs : List Value) (shown : String) :
    (appendAll shown vs).toList = shown.toList ++ charsBehind vs := by
  match vs with
  | [] => simp [appendAll, charsBehind]
  | v :: vs =>
    simp only [appendAll, charsBehind, String.toList_append, toList_appendAll vs,
      toList_appendTo v]
    simp

end

theorem toList_display (v : Value) : v.display.toList = v.chars := by
  rw [display, toList_appendTo]
  rfl

/-- A number that is not finite is shown by a name. -/
theorem text_named {x : Float} (special : ¬ x.isFinite = true) :
    (symbol (Number.text x)).Named := by
  unfold Number.text
  cases decoded : Decoded.ofFloat x with
  | finite b => exact absurd (Decoded.isFinite_iff.mpr ⟨b, decoded⟩) special
  | infinite negative => cases negative <;> exact ⟨by decide, by decide, by decide⟩
  | notANumber => exact ⟨by decide, by decide, by decide⟩

/-- A value that is no list is shown as a token that denotes it. -/
theorem atom_reads {comments : Bool} {depth : ℕ} {rest : List Char} {v : Value} (named : v.Named)
    (atom : ∀ vs, v ≠ .list vs) (within : depth < maxDepth) (apart : Apart rest) :
    Expression comments depth (v.chars ++ rest) v.readBack rest := by
  have name {name : String} (named : (symbol name).Named) :
      Expression comments depth (name.toList ++ rest) (symbol name) rest := by
    obtain ⟨valid, notNil, notTruth⟩ := named
    have token : Expression comments depth (name.toList ++ rest) _ rest := .name within valid apart
    rwa [String.ofList_toList, ofName, if_neg (by simpa using notNil),
      if_neg (by simpa using notTruth)] at token
  match v with
  | .number x =>
    rw [readBack, chars]
    split
    · rename_i finite
      obtain ⟨b, decoded⟩ := Decoded.isFinite_iff.mp finite
      exact .number within (Number.text_token decoded) apart
    · rename_i special
      exact name (text_named special)
  | .symbol _ => exact name named
  | .nil =>
    have valid : Symbol.isName Symbol.nilName.toList = true := by decide
    exact .name within valid apart
  | .truth =>
    have valid : Symbol.isName Symbol.truthName.toList = true := by decide
    exact .name within valid apart
  | .list vs => exact absurd rfl (atom vs)
  | .callable _ => exact absurd named nofun

section
variable {comments : Bool} {rest : List Char}

theorem apart_cons {c : Char} (unnamed : Symbol.isNameChar c = false) : Apart (c :: rest) := by
  rintro d first
  obtain rfl : c = d := by simpa using first
  exact unnamed

theorem apart_behind (vs : List Value) : Apart (charsBehind vs ++ (')' :: rest)) := by
  cases vs with
  | nil => exact apart_cons rfl
  | cons v vs =>
    rw [charsBehind, List.cons_append]
    exact apart_cons rfl

theorem noPoint_behind (vs : List Value) :
    (charsBehind vs ++ (')' :: rest)).head? ≠ some '.' := by
  cases vs <;> simp [charsBehind]

mutual

/-- The text of a value that is not nested too deep is derived. -/
theorem reads {rest : List Char} (depth : ℕ) (v : Value) (named : v.Every Named)
    (within : depth + v.level < maxDepth) (apart : Apart rest) :
    Expression comments depth (v.chars ++ rest) v.readBack rest := by
  match v with
  | .list [] => exact .bracket (b := .round) (by omega) (.close .none)
  | .list (v :: vs) =>
    obtain ⟨-, inner⟩ := every_list.mp named
    rw [level] at within
    have apart : Apart (charsBehind vs ++ (')' :: rest)) := apart_behind vs
    have head := reads (depth + 1) v (inner v List.mem_cons_self) (by omega) apart
    have more : Elements comments (depth + 1) .round _ (readBackAll vs) rest :=
      readsBehind (depth + 1) vs (fun u member => inner u (.tail v member)) (by omega)
    rw [chars, List.cons_append, List.append_assoc, List.append_assoc]
    exact .bracket (b := .round) (by omega) (.cons .none head more)
  | .number _ | .symbol _ | .nil | .truth | .callable _ =>
    exact atom_reads (named _ .self) (by simp) (by omega) apart

theorem readsBehind {rest : List Char} (depth : ℕ) (vs : List Value)
    (named : ∀ v ∈ vs, v.Every Named) (within : depth + highest vs < maxDepth) :
    Elements comments depth .round (charsBehind vs ++ (')' :: rest)) (readBackAll vs) rest := by
  match vs with
  | [] => exact .close .none
  | v :: vs =>
    rw [highest] at within
    have apart : Apart (charsBehind vs ++ (')' :: rest)) := apart_behind vs
    have head := reads depth v (named v List.mem_cons_self) (by omega) apart
    have more : Elements comments depth .round _ (readBackAll vs) rest :=
      readsBehind depth vs (fun u member => named u (.tail v member)) (by omega)
    rw [charsBehind, List.cons_append, List.append_assoc]
    exact .cons (.blank (.inl rfl) .none) head more

end

theorem atom_leads {v : Value} (named : v.Named) (atom : ∀ vs, v ≠ .list vs) :
    ∃ c more, v.chars = c :: more ∧ Leads c := by
  have token : Expression false 0 (v.chars ++ []) v.readBack [] :=
    atom_reads named atom (by decide) (by simp [Apart])
  rw [List.append_nil] at token
  exact token.leads

/-- The first character of a text opens something or belongs to a name or number. -/
theorem chars_leads {v : Value} (named : v.Named) : ∃ c more, v.chars = c :: more ∧ Leads c := by
  match v with
  | .list [] => exact ⟨'(', _, rfl, .inr (.inr ⟨.round, rfl⟩)⟩
  | .list (_ :: _) => exact ⟨'(', _, rfl, .inr (.inr ⟨.round, rfl⟩)⟩
  | .number _ | .symbol _ | .nil | .truth | .callable _ =>
    exact atom_leads named (by simp)

theorem exists_highest (v : Value) (vs : List Value) :
    ∃ u ∈ v :: vs, u.level = highest (v :: vs) := by
  induction vs generalizing v with
  | nil => exact ⟨v, List.mem_cons_self, by simp [highest]⟩
  | cons w vs ih =>
    obtain ⟨u, member, level⟩ := ih w
    rw [highest]
    rcases Nat.le_total v.level (highest (w :: vs)) with less | more
    · exact ⟨u, List.mem_cons_of_mem v member, by rw [level, Nat.max_eq_right less]⟩
    · exact ⟨v, List.mem_cons_self, by rw [Nat.max_eq_left more]⟩

theorem readInside_blank {opened : List Open} {s : List Char} :
    readInside comments opened (' ' :: s) = readInside comments opened s :=
  readInside_layout (.blank (.inl rfl) .none)

mutual

/-- The text of a value that is nested too deep is refused. -/
theorem refused {rest : List Char} (v : Value) (named : v.Every Named) (opened : List Open)
    (deep : maxDepth ≤ opened.length + v.level) :
    readInside comments opened (v.chars ++ rest) = .error .tooDeep := by
  by_cases outside : maxDepth ≤ opened.length
  · obtain ⟨c, more, shown, leads⟩ := chars_leads (named v .self)
    rw [shown, List.cons_append]
    exact readInside_error (next_tooDeep leads outside)
  · have within := Nat.not_le.mp outside
    match v with
    | .list (v :: vs) =>
      obtain ⟨u, member, greatest⟩ := exists_highest v vs
      have below : maxDepth ≤ opened.length + 1 + u.level := by
        rw [greatest, highest]
        rw [level] at deep
        omega
      have inner : readInside comments _ (charsBehind (v :: vs) ++ (')' :: rest)) = _ :=
        refusedBehind (v :: vs) (every_list.mp named).2 [] opened ⟨u, member, below⟩
      rw [charsBehind, List.cons_append, readInside_blank, List.append_assoc] at inner
      rw [chars, List.cons_append, List.append_assoc, List.append_assoc]
      exact (readInside_enter (next_open (b := .round) within)).trans inner
    | .list [] | .number _ | .symbol _ | .nil | .truth | .callable _ => exact absurd deep outside

theorem refusedBehind {rest : List Char} (vs : List Value) (named : ∀ v ∈ vs, v.Every Named)
    (elements : List Value) (outer : List Open)
    (deep : ∃ v ∈ vs, maxDepth ≤ outer.length + 1 + v.level) :
    readInside comments (.list elements :: outer) (charsBehind vs ++ (')' :: rest)) =
      .error .tooDeep := by
  match vs with
  | [] => exact absurd deep (by simp)
  | v :: vs =>
    rw [charsBehind, List.cons_append, readInside_blank, List.append_assoc]
    have inner (u : Value) (member : u ∈ vs) := named u (List.mem_cons_of_mem v member)
    by_cases here : maxDepth ≤ (Open.list elements :: outer).length + v.level
    · exact refused v (named v List.mem_cons_self) _ here
    · have head : Expression comments _ (v.chars ++ (charsBehind vs ++ (')' :: rest))) _ _ :=
        reads _ v (named v List.mem_cons_self) (Nat.not_le.mp here) (apart_behind vs)
      rw [head.read (noPoint_behind vs) _ rfl]
      refine refusedBehind vs inner (v.readBack :: elements) outer ?_
      obtain ⟨u, member, deep⟩ := deep
      rcases List.mem_cons.mp member with rfl | member
      · exact absurd deep here
      · exact ⟨u, member, deep⟩

end

end

/-! ### What the reader produces -/

section
variable {comments : Bool}

theorem quoted_named {v : Value} (named : v.Every Named) : (quoted v).Every Named := by
  refine every_list.mpr ⟨trivial, fun u member => ?_⟩
  rcases List.mem_cons.mp member with rfl | member
  · exact (every_atom (by simp)).mpr ⟨by decide, by decide, by decide⟩
  · obtain rfl := List.mem_singleton.mp member
    exact named

theorem ofName_named {name : List Char} (valid : Symbol.isName name = true) :
    (ofName (String.ofList name)).Every Named := by
  unfold ofName
  split
  · exact (every_atom (by simp)).mpr trivial
  · rename_i notNil
    split
    · exact (every_atom (by simp)).mpr trivial
    · rename_i notTruth
      refine (every_atom (by simp)).mpr ⟨?_, by simpa using notNil, by simpa using notTruth⟩
      rwa [String.toList_ofList]

theorem bracket_named {b : Bracket} {vs : List Value} (named : ∀ v ∈ vs, v.Every Named) :
    (b.value vs).Every Named := by
  have list : (Value.list vs).Every Named := every_list.mpr ⟨trivial, named⟩
  cases b with
  | round => exact list
  | square => exact quoted_named list

mutual

/-- What the grammar derives holds only names and numbers. -/
theorem named_of_expression {depth : ℕ} {s rest : List Char} {v : Value}
    (e : Expression comments depth s v rest) : v.Every Named := by
  match e with
  | .number _ _ _ => exact (every_atom (by simp)).mpr trivial
  | .name _ valid _ => exact ofName_named valid
  | .bracket _ elements => exact bracket_named (named_of_elements elements)
  | .quote _ _ operand => exact quoted_named (named_of_expression operand)

theorem named_of_elements {depth : ℕ} {b : Bracket} {s rest : List Char} {vs : List Value}
    (es : Elements comments depth b s vs rest) : ∀ v ∈ vs, v.Every Named := by
  match es with
  | .close _ => exact nofun
  | .cons _ head more =>
    exact List.forall_mem_cons.mpr ⟨named_of_expression head, named_of_elements more⟩

end

end

mutual

/-- Only numbers that are not finite come back as something else. -/
theorem readBack_eq_iff (v : Value) (named : v.Every Named) : v.readBack = v ↔ v.Every Legible := by
  match v with
  | .number x =>
    rw [every_atom (by simp), readBack, Legible]
    split <;> simp_all
  | .list vs =>
    rw [readBack, Value.list.injEq, readBackAll_eq_iff vs (every_list.mp named).2, every_list]
    exact ⟨fun all => ⟨trivial, all⟩, And.right⟩
  | .symbol _ | .nil | .truth =>
    exact ⟨fun _ => (every_atom (by simp)).mpr (named _ .self), fun _ => rfl⟩
  | .callable _ => exact absurd (named _ .self) nofun

theorem readBackAll_eq_iff (vs : List Value) (named : ∀ v ∈ vs, v.Every Named) :
    readBackAll vs = vs ↔ ∀ v ∈ vs, v.Every Legible := by
  match vs with
  | [] => simp [readBackAll]
  | v :: vs =>
    rw [readBackAll, List.cons.injEq, readBack_eq_iff v (named v List.mem_cons_self),
      readBackAll_eq_iff vs fun u member => named u (List.mem_cons_of_mem v member),
      List.forall_mem_cons]

end

theorem Legible.named {v : Value} (legible : v.Legible) : v.Named := by
  cases v with
  | number => trivial
  | _ => exact legible

/-- Reading the text of a value without callables, and with names for symbols. -/
theorem readOne_display {comments : Bool} {v : Value} (named : v.Every Named) :
    readOne comments v.display =
      if v.level < maxDepth then .ok v.readBack else .error (Fault.parse (.tooDeep maxDepth)) := by
  unfold readOne
  rw [toList_display]
  dsimp only
  by_cases within : v.level < maxDepth
  · have e : Expression comments 0 (v.chars ++ []) v.readBack [] :=
      reads 0 v named (by omega) (by simp [Apart])
    rw [List.append_nil] at e
    rw [if_pos within, e.readExpression_eq .none (by simp)]
    rfl
  · have deep : maxDepth ≤ ([] : List Open).length + v.level := by
      rw [List.length_nil]
      omega
    have r : readInside comments [] (v.chars ++ []) = _ := refused v named [] deep
    rw [List.append_nil] at r
    rw [if_neg within, readExpression, r]
    rfl

theorem named_of_readOne {comments : Bool} {text : String} {v : Value}
    (read : readOne comments text = .ok v) : v.Every Named := by
  unfold readOne at read
  dsimp only at read
  split at read
  · exact absurd read nofun
  · rename_i u rest expression
    obtain ⟨inner, -, e⟩ := Expression.of_readExpression expression
    split at read
    · exact Except.ok.inj read ▸ named_of_expression e
    · exact absurd read nofun

end Value

/-- The text of a value is read back as the same value just when no callable occurs in it, all
numbers in it are finite, all symbols are names other than those of the markers, and it is nested
less deep than the reader allows. -/
theorem readOne_display_iff (comments : Bool) (v : Value) :
    readOne comments v.display = .ok v ↔ v.Every Value.Legible ∧ v.level ≤ 127 := by
  constructor
  · intro read
    have named := Value.named_of_readOne read
    rw [Value.readOne_display named] at read
    split at read
    · rename_i within
      exact ⟨(Value.readBack_eq_iff v named).mp (Except.ok.inj read), Nat.le_of_lt_succ within⟩
    · exact absurd read nofun
  · rintro ⟨legible, shallow⟩
    have named := legible.imp fun _ => Value.Legible.named
    have within : v.level < maxDepth := Nat.lt_succ_of_le shallow
    rw [Value.readOne_display named, if_pos within, (Value.readBack_eq_iff v named).mpr legible]

end CooperativeLisp

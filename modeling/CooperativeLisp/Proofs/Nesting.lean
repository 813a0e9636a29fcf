import CooperativeLisp.Proofs.Documents

/-!
How deep the lists are nested that the reader builds. A bracket or a quote mark becomes a list, and
a bracket of data becomes two, one around the other. So the depth of what is read is the number of
lists that stand open at once, and the depth up to which a text is read bounds it only where there
is no data. Main statements: both measures of the nesting of a value, read off the brackets and
quote marks that are open at each moment of its reading.
-/

namespace CooperativeLisp.Reader

/-- How many lists a bracket or a quote mark becomes. -/
def Open.lists : Open → Nat
  | data _ => 2
  | list _ | quote => 1

/-- The elements read so far. -/
def Open.elements : Open → List Value
  | list elements | data elements => elements
  | quote => []

/-- How many lists all that is open becomes: brackets and quote marks, with those of data counted
twice. -/
def lists (opened : List Open) : Nat :=
  (opened.map Open.lists).sum

/-- Reading inside of `opened` comes to a moment where `inner` is open and `rest` is left. -/
inductive Comes (comments : Bool) : List Open → List Char → List Open → List Char → Prop where
  | here {opened : List Open} {s : List Char} : Comes comments opened s opened s
  | enter {o : Open} {opened inner : List Open} {s t rest : List Char}
      (token : next comments opened s = .ok (.enter o t))
      (later : Comes comments (o :: opened) t inner rest) : Comes comments opened s inner rest
  | complete {opened outer left inner : List Open} {v : Value} {s t rest : List Char}
      (token : next comments opened s = .ok (.complete outer v t))
      (waits : deliver outer v = .inr left) (later : Comes comments left t inner rest) :
      Comes comments opened s inner rest

/-- An atom is read inside of `opened`. -/
def AtomNext (comments : Bool) (opened : List Open) (s : List Char) : Prop :=
  ∃ v rest, next comments opened s = .ok (.complete opened v rest)

@[simp]
theorem lists_nil : lists [] = 0 := rfl

@[simp]
theorem lists_cons (o : Open) (outer : List Open) : lists (o :: outer) = o.lists + lists outer :=
  List.sum_cons

/-! ### Measures -/

/-- A measure of the nesting of lists. With a slack of one the empty list counts as an atom. -/
structure Measures (μ : Value → Nat) (slack : Nat) : Prop where
  atom {v : Value} (atom : ∀ vs, v ≠ .list vs) : μ v = 0
  list {around n : Nat} {vs : List Value} : around + μ (.list vs) ≤ n ↔
    around + 1 ≤ n + slack ∧ ∀ v ∈ vs, around + 1 + μ v ≤ n

theorem measures_depth : Measures Value.depth 0 where
  atom {v} atom := by
    cases v with
    | list vs => exact absurd rfl (atom vs)
    | number | symbol | nil | truth | callable => rfl
  list {around n vs} := by
    by_cases room : around + 1 ≤ n
    · obtain ⟨m, rfl⟩ := Nat.exists_eq_add_of_le room
      have inner : around + (Value.list vs).depth ≤ around + 1 + m ↔
          (Value.list vs).depth ≤ m + 1 := by omega
      rw [inner, Json.depth_list_le]
      simp
    · have positive : 1 ≤ (Value.list vs).depth := by
        rw [Value.depth]
        omega
      exact ⟨fun below => absurd below (by omega), fun both => absurd both.1 room⟩

theorem highest_le {n : Nat} {vs : List Value} :
    Value.highest vs ≤ n ↔ ∀ v ∈ vs, v.level ≤ n := by
  induction vs with
  | nil => simp [Value.highest]
  | cons v vs ih => rw [Value.highest, Nat.max_le, ih, List.forall_mem_cons]

theorem measures_level : Measures Value.level 1 where
  atom {v} atom := by
    cases v with
    | list vs => exact absurd rfl (atom vs)
    | number | symbol | nil | truth | callable => rfl
  list {around n vs} := by
    cases vs with
    | nil => simp [Value.level]
    | cons v vs =>
      have level : (Value.list (v :: vs)).level = Value.highest (v :: vs) + 1 := by
        rw [Value.level, Value.highest]
      rw [level]
      by_cases room : around + 1 ≤ n
      · obtain ⟨m, rfl⟩ := Nat.exists_eq_add_of_le room
        have inner : around + (Value.highest (v :: vs) + 1) ≤ around + 1 + m ↔
            Value.highest (v :: vs) ≤ m := by omega
        have positive : around + 1 ≤ around + 1 + m + 1 := by omega
        rw [inner, highest_le, and_iff_right positive]
        simp only [Nat.add_le_add_iff_left]
      · constructor
        · exact fun below => absurd below (by omega)
        · exact fun both => absurd (both.2 v List.mem_cons_self) (by omega)

section
variable {μ : Value → Nat} {slack : Nat} (measures : Measures μ slack) {n : Nat}
include measures

theorem Measures.quoted {around : Nat} {v : Value} :
    around + μ (quoted v) ≤ n ↔ around + 1 + μ v ≤ n := by
  have symbol : μ (.symbol "quote") = 0 := measures.atom nofun
  rw [Reader.quoted, measures.list]
  simp only [List.forall_mem_cons, symbol]
  constructor
  · exact fun all => all.2.2.1
  · exact fun below => ⟨by omega, by omega, below, by simp⟩

/-- A bracket of data becomes a list inside of another one, which is not empty. -/
theorem Measures.closed {around : Nat} {b : Bracket} {vs : List Value} (elements : List Value) :
    around + μ (b.value vs) ≤ n ↔ around + (b.holding elements).lists ≤ n + slack ∧
      ∀ v ∈ vs, around + (b.holding elements).lists + μ v ≤ n := by
  cases b with
  | round => exact measures.list
  | square =>
    rw [Bracket.value, measures.quoted, measures.list]
    rfl

end

/-! ### Tokens -/

theorem Layout.suffix {comments : Bool} {s rest : List Char} (layout : Layout comments s rest) :
    rest <:+ s := by
  induction layout with
  | none => exact List.suffix_refl _
  | blank _ _ ih => exact ih.trans (List.suffix_cons _ _)
  | comment _ _ _ _ ih =>
    exact ih.trans ((List.suffix_append _ _).trans (List.suffix_cons _ _))

mutual

theorem Expression.suffix {comments : Bool} {depth : Nat} {s rest : List Char} {v : Value}
    (e : Expression comments depth s v rest) : rest <:+ s := by
  match e with
  | .number _ _ _ | .name _ _ _ => exact List.suffix_append _ _
  | .bracket _ elements => exact elements.suffix.trans (List.suffix_cons _ _)
  | .quote _ layout operand =>
    exact (operand.suffix.trans layout.suffix).trans (List.suffix_cons _ _)

theorem Elements.suffix {comments : Bool} {depth : Nat} {b : Bracket} {s rest : List Char}
    {vs : List Value} (es : Elements comments depth b s vs rest) : rest <:+ s := by
  match es with
  | .close layout => exact (List.suffix_cons _ _).trans layout.suffix
  | .cons layout head more => exact (more.suffix.trans head.suffix).trans layout.suffix

end

theorem ofName_atom {name : String} : ∀ vs, ofName name ≠ .list vs := by
  unfold ofName
  split
  · simp
  · split <;> simp

section
variable {comments : Bool} {opened outer : List Open} {s rest : List Char} {v : Value}

theorem next_suffix {move : Move} (token : next comments opened s = .ok move) :
    move.rest <:+ s := by
  rcases next_sound token with ⟨_, _, _, _, -, layout, rfl⟩ |
    ⟨-, ⟨_, _, layout, rfl⟩ | ⟨_, layout, rfl⟩ | ⟨_, _, _, layout, e, rfl⟩⟩
  · exact (List.suffix_cons _ _).trans layout.suffix
  · exact (List.suffix_cons _ _).trans layout.suffix
  · exact (List.suffix_cons _ _).trans layout.suffix
  · exact e.suffix.trans layout.suffix

/-- A value is complete where the innermost bracket is closed, or as an atom. -/
theorem next_complete (token : next comments opened s = .ok (.complete outer v rest)) :
    (∃ b elements, opened = Bracket.holding b elements :: outer ∧ v = b.value elements.reverse) ∨
      outer = opened ∧ opened.length < maxDepth ∧ ∀ vs, v ≠ .list vs := by
  rcases next_sound token with ⟨b, elements, _, _, rfl, -, completed⟩ |
    ⟨within, ⟨_, _, -, impossible⟩ | ⟨_, -, impossible⟩ | ⟨s', u, _, layout, e, completed⟩⟩
  · obtain ⟨rfl, rfl, -⟩ := Move.complete.inj completed
    exact .inl ⟨b, elements, rfl, rfl⟩
  · exact absurd impossible (by simp)
  · exact absurd impossible (by simp)
  · obtain ⟨rfl, rfl, rfl⟩ := Move.complete.inj completed
    rw [next_skip layout.skip_eq] at token
    refine .inr ⟨rfl, within, ?_⟩
    cases e with
    | number => simp
    | name => exact ofName_atom
    | bracket => exact absurd (token.symm.trans (next_open within)) (by simp)
    | quote => exact absurd (token.symm.trans (next_quote within)) (by simp)

/-- A bracket or a quote mark starts without elements, and becomes one list unless it is a bracket
of data. -/
theorem next_enter {o : Open} (token : next comments opened s = .ok (.enter o rest)) :
    opened.length < maxDepth ∧ o.elements = [] ∧ ('[' ∈ s ∨ o.lists = 1) := by
  rcases next_sound token with ⟨_, _, _, _, -, -, impossible⟩ |
    ⟨within, ⟨b, _, layout, entered⟩ | ⟨_, -, entered⟩ | ⟨_, _, _, -, -, impossible⟩⟩
  · exact absurd impossible (by simp)
  · obtain ⟨rfl, rfl⟩ := Move.enter.inj entered
    cases b with
    | round => exact ⟨within, rfl, .inr rfl⟩
    | square => exact ⟨within, rfl, .inl (layout.suffix.subset List.mem_cons_self)⟩
  · obtain ⟨rfl, rfl⟩ := Move.enter.inj entered
    exact ⟨within, rfl, .inr rfl⟩
  · exact absurd impossible (by simp)

theorem AtomNext.within (atom : AtomNext comments opened s) : opened.length < maxDepth := by
  obtain ⟨v, rest, token⟩ := atom
  rcases next_complete token with ⟨_, _, cut, -⟩ | ⟨-, within, -⟩
  · exact absurd (congrArg List.length cut) (by simp)
  · exact within

end

/-! ### Open brackets -/

/-- The elements read so far stand in at most `n` lists, with the lists inside of them counted. -/
def Fits (μ : Value → Nat) (n : Nat) : List Open → Prop
  | [] => True
  | o :: outer => (∀ v ∈ o.elements, lists (o :: outer) + μ v ≤ n) ∧ Fits μ n outer

/-- No more than `n` lists stand open around an atom, and no more than the slack above that around
anything else. -/
def Allows (comments : Bool) (slack n : Nat) (opened : List Open) (s : List Char) : Prop :=
  lists opened ≤ n + slack ∧ (AtomNext comments opened s → lists opened ≤ n)

section
variable {comments : Bool} {opened outer inner : List Open} {s t rest : List Char} {v w : Value}

variable {μ : Value → Nat} {slack n : Nat}

/-- A value fits just when it fits in the place that it is handed to. With only quote marks open
that is the outermost one. -/
theorem fits_deliver (measures : Measures μ slack) :
    (deliver outer v).elim (fun w => μ w ≤ n) (Fits μ n) ↔
      Fits μ n outer ∧ lists outer + μ v ≤ n := by
  induction outer generalizing v with
  | nil => simp [deliver, Fits]
  | cons o outer ih =>
    cases o with
    | quote =>
      rw [deliver, ih, measures.quoted]
      simp [Fits, Open.elements, Open.lists, Nat.add_comm]
    | list elements | data elements =>
      simp only [deliver, Sum.elim_inr, Fits, Open.elements, Open.lists, lists_cons,
        List.forall_mem_cons]
      tauto

theorem fits_complete (measures : Measures μ slack)
    (token : next comments opened s = .ok (.complete outer v rest)) :
    Fits μ n outer ∧ lists outer + μ v ≤ n ↔
      Fits μ n opened ∧ Allows comments slack n opened s := by
  rcases next_complete token with ⟨b, elements, rfl, rfl⟩ | ⟨rfl, -, atom⟩
  · have noAtom : ¬ AtomNext comments (b.holding elements :: outer) s := by
      rintro ⟨u, more, again⟩
      have same := (Move.complete.inj (Except.ok.inj (token.symm.trans again))).1
      exact absurd (congrArg List.length same) (by simp)
    have held : (b.holding elements).elements = elements := by cases b <;> rfl
    rw [measures.closed elements]
    simp only [Fits, Allows, held, lists_cons, noAtom, false_implies, and_true, List.mem_reverse,
      Nat.add_comm (lists outer)]
    tauto
  · have here : AtomNext comments outer s := ⟨v, rest, token⟩
    simp only [Allows, here, true_implies, measures.atom atom, Nat.add_zero]
    constructor
    · exact fun both => ⟨both.1, by omega, both.2⟩
    · exact fun all => ⟨all.1, all.2.2⟩

/-- What holds of all moments holds of the first one and of all behind the token. -/
theorem forall_comes_enter {P : List Open → List Char → Prop} {o : Open}
    (token : next comments opened s = .ok (.enter o t)) :
    (∀ inner rest, Comes comments opened s inner rest → P inner rest) ↔
      P opened s ∧ ∀ inner rest, Comes comments (o :: opened) t inner rest → P inner rest := by
  refine ⟨fun all => ⟨all _ _ .here, fun inner rest later => all _ _ (.enter token later)⟩, ?_⟩
  rintro ⟨here, further⟩ inner rest comes
  cases comes with
  | here => exact here
  | enter again later =>
    obtain ⟨rfl, rfl⟩ := Move.enter.inj (Except.ok.inj (token.symm.trans again))
    exact further _ _ later
  | complete again => exact absurd (token.symm.trans again) nofun

theorem forall_comes_complete {P : List Open → List Char → Prop}
    (token : next comments opened s = .ok (.complete outer v t)) :
    (∀ inner rest, Comes comments opened s inner rest → P inner rest) ↔
      P opened s ∧ ∀ left, deliver outer v = .inr left →
        ∀ inner rest, Comes comments left t inner rest → P inner rest := by
  refine ⟨fun all => ⟨all _ _ .here, fun left waits inner rest later =>
    all _ _ (.complete token waits later)⟩, ?_⟩
  rintro ⟨here, further⟩ inner rest comes
  cases comes with
  | here => exact here
  | enter again => exact absurd (token.symm.trans again) nofun
  | complete again waits later =>
    obtain ⟨rfl, rfl, rfl⟩ := Move.complete.inj (Except.ok.inj (token.symm.trans again))
    exact further _ waits _ _ later

/-- A value that is read measures what the elements read before and all further moments allow. -/
theorem measured (measures : Measures μ slack)
    (read : readInside comments opened s = .ok (w, rest)) :
    μ w ≤ n ↔ Fits μ n opened ∧
      ∀ inner t, Comes comments opened s inner t → Allows comments slack n inner t := by
  -- token by token: `Fits` is about the elements read before, the moments are those to come
  fun_induction readInside comments opened s with
  | case1 => exact absurd read (by simp)
  | case2 opened s o t token ih =>
    have fits : Fits μ n (o :: opened) ↔ Fits μ n opened := by
      simp [Fits, (next_enter token).2.1]
    have here (further : ∀ inner rest, Comes comments (o :: opened) t inner rest →
        Allows comments slack n inner rest) : Allows comments slack n opened s := by
      obtain ⟨below, -⟩ := further _ _ .here
      rw [lists_cons] at below
      refine ⟨by omega, fun atom => ?_⟩
      obtain ⟨_, _, again⟩ := atom
      exact absurd (token.symm.trans again) (by simp)
    rw [ih read, fits, forall_comes_enter token]
    exact and_congr_right fun _ => (and_iff_right_of_imp here).symm
  | case3 opened s outer v t token u done =>
    obtain ⟨rfl, rfl⟩ := Prod.mk.inj (Except.ok.inj read)
    have handed : μ u ≤ n ↔ _ := done ▸ fits_deliver (v := v) (n := n) measures
    rw [handed, fits_complete measures token, forall_comes_complete token]
    simp [done]
  | case4 opened s outer v t token left waits ih =>
    have handed : Fits μ n left ↔ _ := waits ▸ fits_deliver (v := v) (n := n) measures
    rw [ih read, handed, fits_complete measures token, forall_comes_complete token, and_assoc]
    simp [waits]

/-- Handing a value over closes quote marks and opens nothing. -/
theorem deliver_shape (waits : deliver outer v = .inr inner) :
    inner.map Open.lists <:+ outer.map Open.lists := by
  induction outer generalizing v with
  | nil => exact absurd waits nofun
  | cons o outer ih =>
    cases o with
    | quote => exact (ih waits).trans (List.suffix_cons _ _)
    | list | data =>
      obtain rfl := Sum.inr.inj waits
      exact List.suffix_refl _

/-- No more brackets and quote marks are open at once than the reader allows. -/
theorem Comes.length_le (comes : Comes comments opened s inner rest)
    (within : opened.length ≤ maxDepth) : inner.length ≤ maxDepth := by
  induction comes with
  | here => exact within
  | enter token _ ih => exact ih (next_enter token).1
  | complete token waits _ ih =>
    have shorter := (deliver_shape waits).length_le
    simp only [List.length_map] at shorter
    rcases next_complete token with ⟨b, elements, rfl, -⟩ | ⟨rfl, -, -⟩
    · rw [List.length_cons] at within
      exact ih (by omega)
    · exact ih (by omega)

end

/-! ### Texts -/

section
variable {comments : Bool} {opened inner : List Open} {s rest : List Char}

/-- Where no bracket of data is written, everything that is open becomes one list. -/
theorem Comes.lists_eq (comes : Comes comments opened s inner rest) (noData : '[' ∉ s)
    (plain : ∀ k ∈ opened.map Open.lists, k = 1) : lists inner = inner.length := by
  induction comes with
  | @here opened s =>
    rw [lists, List.eq_replicate_of_mem plain]
    simp
  | enter token _ ih =>
    have single := (next_enter token).2.2.resolve_left noData
    exact ih (fun member => noData ((next_suffix token).subset member))
      (List.forall_mem_cons.mpr ⟨single, plain⟩)
  | complete token waits _ ih =>
    refine ih (fun member => noData ((next_suffix token).subset member)) fun k member => ?_
    have outside := (deliver_shape waits).subset member
    rcases next_complete token with ⟨b, elements, rfl, -⟩ | ⟨rfl, -, -⟩
    · exact plain k (List.mem_cons_of_mem _ outside)
    · exact plain k outside

theorem lists_le (opened : List Open) : lists opened ≤ 2 * opened.length := by
  induction opened with
  | nil => simp
  | cons o opened ih =>
    have most : o.lists ≤ 2 := by cases o <;> simp [Open.lists]
    rw [lists_cons, List.length_cons]
    omega

end

section
variable {comments : Bool} {text : String} {v : Value}

theorem readInside_of_readOne (read : readOne comments text = .ok v) :
    ∃ rest, readInside comments [] text.toList = .ok (v, rest) := by
  unfold readOne at read
  dsimp only at read
  split at read
  · exact absurd read nofun
  · rename_i u rest first
    split at read
    · obtain rfl := Except.ok.inj read
      exact ⟨rest, first⟩
    · exact absurd read nofun

/-- The depth of what is read is the greatest number of lists that stand open at once. -/
theorem depth_of_readOne (read : readOne comments text = .ok v) (n : Nat) :
    v.depth ≤ n ↔ ∀ opened rest, Comes comments [] text.toList opened rest → lists opened ≤ n := by
  obtain ⟨rest, inside⟩ := readInside_of_readOne read
  rw [measured measures_depth inside]
  simp only [Fits, Allows, true_and, Nat.add_zero]
  exact ⟨fun all opened rest comes => (all _ _ comes).1,
    fun all opened rest comes => ⟨all _ _ comes, fun _ => all _ _ comes⟩⟩

theorem level_of_readOne (read : readOne comments text = .ok v) (n : Nat) :
    v.level ≤ n ↔ ∀ opened rest, Comes comments [] text.toList opened rest →
      Allows comments 1 n opened rest := by
  obtain ⟨rest, inside⟩ := readInside_of_readOne read
  rw [measured measures_level inside]
  simp only [Fits, true_and]

/-- A text without data is read as lists that are nested no deeper than its brackets and quote
marks. -/
theorem nested_of_readOne (read : readOne comments text = .ok v) (noData : '[' ∉ text.toList) :
    v.depth ≤ maxDepth ∧ v.level < maxDepth := by
  have height {opened : List Open} {rest : List Char}
      (comes : Comes comments [] text.toList opened rest) :
      lists opened = opened.length ∧ opened.length ≤ maxDepth :=
    ⟨comes.lists_eq noData (by simp), comes.length_le (by simp)⟩
  constructor
  · rw [depth_of_readOne read]
    intro opened rest comes
    have bound := height comes
    omega
  · refine Nat.lt_succ_of_le ((level_of_readOne read 127).mpr fun opened rest comes => ?_)
    obtain ⟨same, bound⟩ := height comes
    have atBracket : lists opened ≤ 127 + 1 := by
      rw [same]
      exact bound
    refine ⟨atBracket, fun atom => ?_⟩
    rw [same]
    exact Nat.le_of_lt_succ atom.within

theorem depth_le_of_readOne (read : readOne comments text = .ok v) : v.depth ≤ 2 * maxDepth := by
  rw [depth_of_readOne read]
  intro opened rest comes
  have most := lists_le opened
  have bound := comes.length_le (by simp)
  omega

end

end CooperativeLisp.Reader

import CooperativeLisp.Proofs.Grammar

/-!
The reader of programs and the grammar. The brackets and quote marks that are still open describe
what the grammar still asks of the text. Main statement: a text is read to the end just when the
grammar derives it, and the expressions read are those it denotes.
-/

namespace CooperativeLisp.Reader

/-- An open bracket with the elements read so far, latest first. -/
def Bracket.holding : Bracket → List Value → Open
  | round => .list
  | square => .data

/-- Reading goes on with a value that is complete inside of `opened`. -/
def handOver (comments : Bool) (opened : List Open) (v : Value) (rest : List Char) :
    Except Stop (Value × List Char) :=
  match deliver opened v with
  | .inl v => .ok (v, rest)
  | .inr opened => readInside comments opened rest

section
variable {comments : Bool} {b : Bracket} {opened outer : List Open} {elements : List Value}
variable {s inner rest : List Char} {v : Value}

@[simp]
theorem handOver_nil : handOver comments [] v rest = .ok (v, rest) := rfl

@[simp]
theorem handOver_holding :
    handOver comments (b.holding elements :: outer) v rest =
      readInside comments (b.holding (v :: elements) :: outer) rest := by
  cases b <;> rfl

theorem readInside_eq (comments : Bool) (opened : List Open) (s : List Char) :
    readInside comments opened s =
      match next comments opened s with
      | .error stop => .error stop
      | .ok (.enter o rest) => readInside comments (o :: opened) rest
      | .ok (.complete outer v rest) => handOver comments outer v rest := by
  rw [readInside]
  split
  all_goals
    rename_i token
    rw [token]
  rfl

theorem readInside_enter {o : Open} (token : next comments opened s = .ok (.enter o rest)) :
    readInside comments opened s = readInside comments (o :: opened) rest := by
  rw [readInside_eq, token]

theorem readInside_error {stop : Stop} (token : next comments opened s = .error stop) :
    readInside comments opened s = .error stop := by
  rw [readInside_eq, token]

theorem readInside_complete (token : next comments opened s = .ok (.complete outer v rest)) :
    readInside comments opened s = handOver comments outer v rest := by
  rw [readInside_eq, token]

/-- A token stands behind the layout. -/
theorem next_skip (same : skipLayout comments s = skipLayout comments inner) :
    next comments opened s = next comments opened inner := by
  simp only [next, same]

theorem readInside_layout (layout : Layout comments s inner) :
    readInside comments opened s = readInside comments opened inner := by
  rw [readInside_eq, next_skip layout.skip_eq, ← readInside_eq]

/-- The characters that an expression starts with. -/
def Leads (c : Char) : Prop :=
  Symbol.isNameChar c = true ∨ c = '\'' ∨ ∃ b : Bracket, c = b.opening

theorem Leads.visible {c : Char} (leads : Leads c) :
    isLayout c = false ∧ c ≠ ';' ∧ c ≠ '.' ∧ ∀ b : Bracket, c ≠ b.closing := by
  rcases leads with named | rfl | ⟨b, rfl⟩
  · have other (d : Char) (unnamed : Symbol.isNameChar d = false) : c ≠ d := by
      rintro rfl
      rw [unnamed] at named
      exact absurd named (by decide)
    refine ⟨?_, other _ rfl, other _ rfl, fun b => other _ (by cases b <;> rfl)⟩
    rw [← Bool.not_eq_true, isLayout_iff]
    rintro (blank | blank | blank | blank) <;> exact other _ (by decide) blank
  · refine ⟨rfl, by decide, by decide, fun b => ?_⟩
    cases b <;> decide
  · cases b
    all_goals
      refine ⟨rfl, by decide, by decide, fun b => ?_⟩
      cases b <;> decide

theorem Expression.leads {depth : Nat} (e : Expression comments depth s v rest) :
    ∃ c more, s = c :: more ∧ Leads c := by
  cases e with
  | number _ valid _ =>
    obtain ⟨c, more, rfl, named⟩ := valid.first
    exact ⟨c, _, rfl, .inl named⟩
  | name _ valid _ =>
    obtain ⟨c, more, split, named⟩ := isName_first valid
    exact ⟨c, _, by rw [split, List.cons_append], .inl named⟩
  | bracket => exact ⟨_, _, rfl, .inr (.inr ⟨_, rfl⟩)⟩
  | quote => exact ⟨_, _, rfl, .inr (.inl rfl)⟩

theorem Leads.skipLayout_eq {c : Char} (leads : Leads c) :
    skipLayout comments (c :: s) = c :: s :=
  skipLayout_cons leads.visible.1 leads.visible.2.1

/-- No text that goes on in the grammar starts with a point, so a point behind a whole number is
always that of its fraction. -/
theorem Layout.noPoint {c : Char} {more : List Char} (layout : Layout comments s (c :: more))
    (other : c ≠ '.') : s.head? ≠ some '.' := by
  intro point
  cases layout with
  | none => exact other (by simpa using point)
  | blank isBlank => simp_all
  | comment => simp at point

theorem Elements.noPoint {depth : Nat} {vs : List Value}
    (es : Elements comments depth b s vs rest) : s.head? ≠ some '.' := by
  cases es with
  | close layout => exact layout.noPoint (by cases b <;> decide)
  | cons layout head _ =>
    obtain ⟨c, more, rfl, leads⟩ := head.leads
    exact layout.noPoint leads.visible.2.2.1

theorem Expressions.noPoint {vs : List Value} (es : Expressions comments s vs) :
    s.head? ≠ some '.' := by
  cases es with
  | done layout =>
    intro point
    cases layout with
    | none => simp at point
    | blank isBlank => simp_all
    | comment => simp at point
  | cons layout head _ =>
    obtain ⟨c, more, rfl, leads⟩ := head.leads
    exact layout.noPoint leads.visible.2.2.1

/-! ### One token -/

theorem next_close (elements : List Value) (outer : List Open) (rest : List Char) :
    next comments (b.holding elements :: outer) (b.closing :: rest) =
      .ok (.complete outer (b.value elements.reverse) rest) := by
  have visible : skipLayout comments (b.closing :: rest) = b.closing :: rest := by
    cases b <;> exact skipLayout_cons rfl (by decide)
  unfold next
  rw [visible]
  cases b <;> rfl

theorem Leads.closes_nothing {c : Char} (leads : Leads c) (opened : List Open) :
    opened.head?.bind (Open.closedBy? c) = none := by
  cases opened with
  | nil => rfl
  | cons o outer =>
    have round := leads.visible.2.2.2 .round
    have square := leads.visible.2.2.2 .square
    cases o <;> simp_all [Open.closedBy?, Bracket.closing]

/-- What a character that closes no bracket does. -/
theorem next_leads {c : Char} (leads : Leads c) (within : opened.length < maxDepth) :
    next comments opened (c :: s) =
      match Open.openedBy? c with
      | some o => .ok (.enter o s)
      | none =>
        match atom? (c :: s) with
        | some (v, rest) => .ok (.complete opened v rest)
        | none => .error (.before (c :: s)) := by
  unfold next
  rw [leads.skipLayout_eq]
  simp only [leads.closes_nothing opened]
  exact if_neg (Nat.not_le.mpr within)

theorem next_tooDeep {c : Char} (leads : Leads c) (deep : maxDepth ≤ opened.length) :
    next comments opened (c :: s) = .error .tooDeep := by
  unfold next
  rw [leads.skipLayout_eq]
  simp only [leads.closes_nothing opened]
  exact if_pos deep

theorem next_open (within : opened.length < maxDepth) :
    next comments opened (b.opening :: s) = .ok (.enter (b.holding []) s) := by
  rw [next_leads (.inr (.inr ⟨b, rfl⟩)) within]
  cases b <;> rfl

theorem next_quote (within : opened.length < maxDepth) :
    next comments opened ('\'' :: s) = .ok (.enter .quote s) := by
  rw [next_leads (.inr (.inl rfl)) within]
  rfl

theorem next_atom {token : List Char}
    (first : ∃ c more, token = c :: more ∧ Symbol.isNameChar c = true)
    (within : opened.length < maxDepth) (read : atom? (token ++ rest) = some (v, rest)) :
    next comments opened (token ++ rest) = .ok (.complete opened v rest) := by
  obtain ⟨c, more, rfl, named⟩ := first
  have noOpen : Open.openedBy? c = none := by
    have other (d : Char) (unnamed : Symbol.isNameChar d = false) : (c == d) = false := by
      rw [beq_eq_false_iff_ne]
      rintro rfl
      rw [unnamed] at named
      exact absurd named (by decide)
    simp [Open.openedBy?, other '(' rfl, other '[' rfl, other '\'' rfl]
  rw [List.cons_append] at read ⊢
  rw [next_leads (.inl named) within, noOpen, read]

theorem closedBy?_sound {c : Char} {o : Open} (closed : Open.closedBy? c o = some v) :
    ∃ b elements, o = Bracket.holding b elements ∧ c = b.closing ∧
      v = b.value elements.reverse := by
  cases o with
  | list elements =>
    by_cases closes : c = ')'
    · simp only [Open.closedBy?, closes, beq_self_eq_true, if_true, Option.some.injEq] at closed
      exact ⟨.round, elements, rfl, closes, closed.symm⟩
    · simp [Open.closedBy?, closes] at closed
  | data elements =>
    by_cases closes : c = ']'
    · simp only [Open.closedBy?, closes, beq_self_eq_true, if_true, Option.some.injEq] at closed
      exact ⟨.square, elements, rfl, closes, closed.symm⟩
    · simp [Open.closedBy?, closes] at closed
  | quote => simp [Open.closedBy?] at closed

theorem openedBy?_sound {c : Char} {o : Open} (opens : Open.openedBy? c = some o) :
    (∃ b : Bracket, c = b.opening ∧ o = b.holding []) ∨ c = '\'' ∧ o = .quote := by
  unfold Open.openedBy? at opens
  by_cases round : c = '('
  · simp only [round, beq_self_eq_true, if_true, Option.some.injEq] at opens
    exact .inl ⟨.round, round, opens.symm⟩
  · by_cases square : c = '['
    · simp only [square, beq_self_eq_true, if_true] at opens
      exact .inl ⟨.square, square, (Option.some.inj opens).symm⟩
    · by_cases mark : c = '\''
      · simp only [mark, beq_self_eq_true, if_true] at opens
        exact .inr ⟨mark, (Option.some.inj opens).symm⟩
      · simp [round, square, mark] at opens

/-- What a token does, read off the grammar: it closes the innermost bracket, opens something, or
is an expression. -/
theorem next_sound {move : Move} (token : next comments opened s = .ok move) :
    (∃ b elements outer rest, opened = Bracket.holding b elements :: outer ∧
        Layout comments s (b.closing :: rest) ∧
        move = .complete outer (b.value elements.reverse) rest) ∨
      opened.length < maxDepth ∧
        ((∃ b rest, Layout comments s (Bracket.opening b :: rest) ∧
            move = .enter (b.holding []) rest) ∨
          (∃ rest, Layout comments s ('\'' :: rest) ∧ move = .enter .quote rest) ∨
          ∃ inner v rest, Layout comments s inner ∧
            Expression comments opened.length inner v rest ∧ move = .complete opened v rest) := by
  have layout := layout_skipLayout comments s
  unfold next at token
  split at token
  · exact absurd token (by simp)
  · exact absurd token (by simp)
  · exact absurd token (by simp)
  · rename_i opened _ _ c more skipped
    rw [skipped] at layout
    split at token
    · rename_i v closed
      left
      cases opened with
      | nil => exact absurd closed (by simp)
      | cons o outer =>
        obtain ⟨b, elements, rfl, rfl, rfl⟩ := closedBy?_sound closed
        exact ⟨b, elements, outer, more, rfl, layout, (Except.ok.inj token).symm⟩
    · split at token
      · exact absurd token (by simp)
      · rename_i inside
        have within := Nat.not_le.mp inside
        refine .inr ⟨within, ?_⟩
        split at token
        · rename_i o opens
          obtain rfl := Except.ok.inj token
          rcases openedBy?_sound opens with ⟨b, rfl, rfl⟩ | ⟨rfl, rfl⟩
          · exact .inl ⟨b, more, layout, rfl⟩
          · exact .inr (.inl ⟨more, layout, rfl⟩)
        · split at token
          · rename_i v rest read
            obtain rfl := Except.ok.inj token
            exact .inr (.inr ⟨c :: more, v, rest, layout, atom?_sound within read, rfl⟩)
          · exact absurd token (by simp)

end

/-! ### Reading what the grammar derives -/

section
variable {comments : Bool}

mutual

/-- An expression is read as it is derived, whatever is open around it. -/
theorem Expression.read {depth : Nat} {s rest : List Char} {v : Value}
    (e : Expression comments depth s v rest) : rest.head? ≠ some '.' → ∀ opened : List Open,
      opened.length = depth → readInside comments opened s = handOver comments opened v rest := by
  match e with
  | .number within valid apart =>
    intro noPoint opened height
    exact readInside_complete
      (next_atom valid.first (height ▸ within) (atom?_number valid apart noPoint))
  | .name within valid apart =>
    intro noPoint opened height
    exact readInside_complete (next_atom (isName_first valid) (height ▸ within)
      (atom?_name valid apart))
  | .bracket within elements =>
    intro noPoint opened height
    rw [readInside_enter (next_open (height ▸ within)), elements.read [] opened (height ▸ rfl)]
    rfl
  | .quote within layout operand =>
    intro noPoint opened height
    rw [readInside_enter (next_quote (height ▸ within)), readInside_layout layout,
      operand.read noPoint (.quote :: opened) (height ▸ rfl)]
    rfl

theorem Elements.read {depth : Nat} {b : Bracket} {s rest : List Char} {vs : List Value}
    (es : Elements comments depth b s vs rest) :
    ∀ (elements : List Value) (outer : List Open), outer.length + 1 = depth →
      readInside comments (b.holding elements :: outer) s =
        handOver comments outer (b.value (elements.reverse ++ vs)) rest := by
  match es with
  | .close layout =>
    intro elements outer height
    rw [readInside_layout layout, readInside_complete (next_close elements outer rest),
      List.append_nil]
  | .cons layout head more =>
    intro elements outer height
    rw [readInside_layout layout, head.read more.noPoint (b.holding elements :: outer) height,
      handOver_holding, more.read _ outer height, List.reverse_cons, List.append_assoc,
      List.singleton_append]

end

end

/-! ### Deriving what is read -/

/-- What the grammar still asks of the text once `v` is complete inside of `opened`: every bracket
takes its further elements and is closed, and `w` is what all of this denotes. -/
inductive Closes (comments : Bool) : List Open → Value → List Char → Value → List Char → Prop where
  | done {v : Value} {s : List Char} : Closes comments [] v s v s
  | quote {outer : List Open} {v w : Value} {s rest : List Char}
      (outside : Closes comments outer (quoted v) s w rest) :
      Closes comments (.quote :: outer) v s w rest
  | bracket {b : Bracket} {elements vs : List Value} {outer : List Open} {v w : Value}
      {s mid rest : List Char} (more : Elements comments (outer.length + 1) b s vs mid)
      (outside : Closes comments outer (b.value (elements.reverse ++ v :: vs)) mid w rest) :
      Closes comments (b.holding elements :: outer) v s w rest

/-- What the grammar asks of a text inside of `opened`: an expression first, or at once the end of
the innermost bracket. -/
inductive Finishes (comments : Bool) : List Open → List Char → Value → List Char → Prop where
  | expression {opened : List Open} {s inner mid rest : List Char} {v w : Value}
      (layout : Layout comments s inner) (head : Expression comments opened.length inner v mid)
      (outside : Closes comments opened v mid w rest) : Finishes comments opened s w rest
  | close {b : Bracket} {elements : List Value} {outer : List Open} {s mid rest : List Char}
      {w : Value} (layout : Layout comments s (b.closing :: mid))
      (outside : Closes comments outer (b.value elements.reverse) mid w rest) :
      Finishes comments (b.holding elements :: outer) s w rest

section
variable {comments : Bool} {b : Bracket} {opened outer : List Open} {elements : List Value}
variable {s rest : List Char} {v w : Value}

theorem Bracket.holding_inj {b' : Bracket} {elements' : List Value}
    (same : b.holding elements = b'.holding elements') : b = b' ∧ elements = elements' := by
  cases b <;> cases b' <;> simp_all [Bracket.holding]

theorem Closes.of_quote (closes : Closes comments (.quote :: outer) v s w rest) :
    Closes comments outer (quoted v) s w rest := by
  generalize opened : Open.quote :: outer = o at closes
  cases closes with
  | done => exact absurd opened (by simp)
  | quote outside =>
    obtain ⟨-, rfl⟩ := List.cons.inj opened
    exact outside
  | @bracket b =>
    cases b <;> exact absurd opened (by simp [Bracket.holding])

theorem Closes.of_holding (closes : Closes comments (b.holding elements :: outer) v s w rest) :
    ∃ vs mid, Elements comments (outer.length + 1) b s vs mid ∧
      Closes comments outer (b.value (elements.reverse ++ v :: vs)) mid w rest := by
  generalize opened : b.holding elements :: outer = o at closes
  cases closes with
  | done => exact absurd opened (by simp)
  | quote outside => cases b <;> exact absurd opened (by simp [Bracket.holding])
  | bracket more outside =>
    obtain ⟨same, rfl⟩ := List.cons.inj opened
    obtain ⟨rfl, rfl⟩ := Bracket.holding_inj same
    exact ⟨_, _, more, outside⟩

/-- Inside of a bracket the rest of its elements is derived before what stands around it. -/
theorem Finishes.of_holding (finishes : Finishes comments (b.holding elements :: outer) s w rest) :
    ∃ vs mid, Elements comments (outer.length + 1) b s vs mid ∧
      Closes comments outer (b.value (elements.reverse ++ vs)) mid w rest := by
  generalize opened : b.holding elements :: outer = o at finishes
  cases finishes with
  | expression layout head outside =>
    subst opened
    obtain ⟨vs, mid, more, outside⟩ := outside.of_holding
    exact ⟨_, _, .cons layout head more, outside⟩
  | close layout outside =>
    obtain ⟨same, rfl⟩ := List.cons.inj opened
    obtain ⟨rfl, rfl⟩ := Bracket.holding_inj same
    exact ⟨[], _, .close layout, by rwa [List.append_nil]⟩

theorem Finishes.of_quote (finishes : Finishes comments (.quote :: outer) s w rest) :
    ∃ inner v mid, Layout comments s inner ∧ Expression comments (outer.length + 1) inner v mid ∧
      Closes comments outer (quoted v) mid w rest := by
  generalize opened : Open.quote :: outer = o at finishes
  cases finishes with
  | expression layout head outside =>
    subst opened
    exact ⟨_, _, _, layout, head, outside.of_quote⟩
  | @close b => cases b <;> exact absurd opened (by simp [Bracket.holding])

/-- A value handed over completes the quote marks around it, up to a bracket or the end. -/
theorem Closes.of_handOver
    (ih : ∀ opened, deliver outer v = .inr opened → readInside comments opened s = .ok (w, rest) →
      Finishes comments opened s w rest)
    (read : handOver comments outer v s = .ok (w, rest)) : Closes comments outer v s w rest := by
  induction outer generalizing v with
  | nil =>
    obtain ⟨rfl, rfl⟩ := Prod.mk.inj (Except.ok.inj read)
    exact .done
  | cons o outer inward =>
    have bracket {b : Bracket} {elements : List Value} (holds : o = b.holding elements) :
        Closes comments (o :: outer) v s w rest := by
      subst holds
      have waits : deliver (b.holding elements :: outer) v =
          .inr (b.holding (v :: elements) :: outer) := by
        cases b <;> rfl
      rw [handOver_holding] at read
      obtain ⟨vs, mid, more, outside⟩ := (ih _ waits read).of_holding
      rw [List.reverse_cons, List.append_assoc, List.singleton_append] at outside
      exact .bracket more outside
    cases o with
    | list elements => exact bracket (b := .round) rfl
    | data elements => exact bracket (b := .square) rfl
    | quote => exact .quote (inward ih read)

/-- A token that completes a value closes the innermost bracket or is an expression itself. -/
theorem Finishes.of_complete {mid : List Char}
    (token : next comments opened s = .ok (.complete outer v mid))
    (outside : Closes comments outer v mid w rest) : Finishes comments opened s w rest := by
  rcases next_sound token with ⟨b, elements, outer', mid', rfl, layout, completed⟩ |
    ⟨-, ⟨b, mid', -, impossible⟩ | ⟨mid', -, impossible⟩ |
      ⟨inner, v', mid', layout, head, completed⟩⟩
  · obtain ⟨rfl, rfl, rfl⟩ := Move.complete.inj completed
    exact .close layout outside
  · exact absurd impossible (by simp)
  · exact absurd impossible (by simp)
  · obtain ⟨rfl, rfl, rfl⟩ := Move.complete.inj completed
    exact .expression layout head outside

theorem finishes_of_readInside (read : readInside comments opened s = .ok (w, rest)) :
    Finishes comments opened s w rest := by
  fun_induction readInside comments opened s with
  | case1 => exact absurd read (by simp)
  | case2 opened s o mid token ih =>
    have further := ih read
    rcases next_sound token with ⟨b, elements, outer, mid', -, -, impossible⟩ |
      ⟨within, ⟨b, mid', layout, entered⟩ | ⟨mid', layout, entered⟩ |
        ⟨inner, v, mid', -, -, impossible⟩⟩
    · exact absurd impossible (by simp)
    · obtain ⟨rfl, rfl⟩ := Move.enter.inj entered
      obtain ⟨vs, end_, more, outside⟩ := further.of_holding
      exact .expression layout (.bracket within more) outside
    · obtain ⟨rfl, rfl⟩ := Move.enter.inj entered
      obtain ⟨inner, v, end_, before, operand, outside⟩ := further.of_quote
      exact .expression layout (.quote within before operand) outside
    · exact absurd impossible (by simp)
  | case3 opened s outer v mid token u done =>
    refine .of_complete token (.of_handOver ?_ ?_)
    · intro opened' waits
      rw [done] at waits
      exact absurd waits (by simp)
    · rw [handOver, done]
      exact read
  | case4 opened s outer v mid token opened' waits ih =>
    refine .of_complete token (.of_handOver ?_ ?_)
    · intro opened'' again read
      rw [waits] at again
      obtain rfl := Sum.inr.inj again
      exact ih read
    · rw [handOver, waits]
      exact read

theorem Expression.of_readExpression (read : readExpression comments s = .ok (v, rest)) :
    ∃ inner, Layout comments s inner ∧ Expression comments 0 inner v rest := by
  cases finishes_of_readInside read with
  | expression layout head outside =>
    cases outside
    exact ⟨_, layout, head⟩

theorem Expression.readExpression_eq {inner : List Char} (layout : Layout comments s inner)
    (e : Expression comments 0 inner v rest) (noPoint : rest.head? ≠ some '.') :
    readExpression comments s = .ok (v, rest) := by
  rw [readExpression, readInside_layout layout, e.read noPoint [] rfl, handOver_nil]

/-! ### Programs -/

theorem readAll_done (blank : skipLayout comments s = []) : readAll comments s = .ok [] := by
  rw [readAll, if_pos blank]

theorem readAll_cons (more : skipLayout comments s ≠ [])
    (first : readExpression comments s = .ok (v, rest)) :
    readAll comments s = (readAll comments rest).map (v :: ·) := by
  rw [readAll, if_neg more]
  split
  · rename_i stop refused
    exact absurd (first.symm.trans refused) (by simp)
  · rename_i v' rest' read
    obtain ⟨rfl, rfl⟩ := Prod.mk.inj (Except.ok.inj (first.symm.trans read))
    rfl

theorem Expressions.of_readAll {vs : List Value} (read : readAll comments s = .ok vs) :
    Expressions comments s vs := by
  fun_induction readAll comments s generalizing vs with
  | case1 s blank =>
    obtain rfl := Except.ok.inj read
    exact .done (blank ▸ layout_skipLayout comments s)
  | case2 => exact absurd read (by simp)
  | case3 s more v rest first ih =>
    obtain ⟨inner, layout, head⟩ := Expression.of_readExpression first
    cases others : readAll comments rest with
    | error stop =>
      rw [others] at read
      exact absurd read (by simp [Except.map])
    | ok us =>
      rw [others] at read
      obtain rfl := Except.ok.inj read
      exact .cons layout head (ih others)

theorem Expressions.readAll_eq {vs : List Value} (es : Expressions comments s vs) :
    readAll comments s = .ok vs := by
  induction es with
  | done layout => exact readAll_done layout.skip_eq
  | cons layout head others ih =>
    obtain ⟨c, text, rfl, leads⟩ := head.leads
    have more := layout.skip_eq.trans leads.skipLayout_eq
    rw [readAll_cons (by rw [more]; simp) (head.readExpression_eq layout others.noPoint), ih]
    rfl

theorem readAll_iff {vs : List Value} : readAll comments s = .ok vs ↔ Expressions comments s vs :=
  ⟨Expressions.of_readAll, Expressions.readAll_eq⟩

theorem Stop.fault_kind (stop : Stop) (input : List Char) : (stop.fault input).kind = .parse := by
  match stop with
  | .tooDeep => rfl
  | .before [] => rfl
  | .before (_ :: _) => rfl

/-- A text is read as a program just when it is a sequence of expressions with layout around them,
and then as the values that these denote; every other text is refused with a parse error. -/
theorem readProgram_iff_expressions (comments : Bool) (text : String) :
    (∀ vs, readProgram comments text = .ok vs ↔ Expressions comments text.toList vs) ∧
      ((∃ vs, Expressions comments text.toList vs) ∨
        ∃ e, readProgram comments text = .error e ∧ e.fault.kind = .parse) := by
  cases read : readAll comments text.toList with
  | error stop =>
    have refused : readProgram comments text = .error (stop.fault text.toList) := by
      simp only [readProgram, read]
    refine ⟨fun vs => ?_, .inr ⟨_, refused, stop.fault_kind text.toList⟩⟩
    rw [refused, ← readAll_iff, read]
    simp
  | ok us =>
    have accepted : readProgram comments text = .ok us := by
      simp only [readProgram, read]
    refine ⟨fun vs => ?_, .inl ⟨us, readAll_iff.mp read⟩⟩
    rw [accepted, ← readAll_iff, read]
    simp

end

end CooperativeLisp.Reader

import CooperativeLisp.Proofs.Reading

/-!
Texts joined by the end of a line. No number and no name reaches over the end of a line, and a
comment ends before it, so what the reader makes of a text does not depend on the lines behind it,
unless it asks for them. Main statement: programs can be cut and joined where a line ends between
two expressions, and a text that is wrong stays wrong whatever follows.
-/

namespace CooperativeLisp.Reader

/-- The same stop in a text that goes on with `more`. -/
def Stop.goesOn (more : List Char) : Stop → Stop
  | tooDeep => tooDeep
  | before rest => before (rest ++ more)

/-- The same move in a text that goes on with `more`. -/
def Move.goesOn (more : List Char) : Move → Move
  | enter opened rest => enter opened (rest ++ more)
  | complete outer v rest => complete outer v (rest ++ more)

/-- Reading did not come to a place where the text ends and something more is needed. -/
def Decided {α : Type} (r : Except Stop α) : Prop :=
  r ≠ .error (.before [])

theorem decided_ok {α : Type} {x : α} : Decided (.ok x) :=
  nofun

theorem decided_error {α : Type} {stop : Stop} :
    Decided (.error stop : Except Stop α) ↔ stop ≠ .before [] :=
  not_congr ⟨Except.error.inj, congrArg Except.error⟩

/-! ### Tokens -/

section
variable {comments : Bool} {opened : List Open} {s : List Char} (t : List Char)

theorem takeWhile_line {p : Char → Bool} (stops : p '\n' = false) (s : List Char) :
    (s ++ '\n' :: t).takeWhile p = s.takeWhile p := by
  induction s with
  | nil => simp [stops]
  | cons c s ih => simp only [List.cons_append, List.takeWhile_cons, ih]

theorem dropWhile_line {p : Char → Bool} (stops : p '\n' = false) (s : List Char) :
    (s ++ '\n' :: t).dropWhile p = s.dropWhile p ++ '\n' :: t := by
  induction s with
  | nil => simp [stops]
  | cons c s ih =>
    simp only [List.cons_append, List.dropWhile_cons, ih]
    split <;> rfl

theorem head?_line {p : Char → Bool} (stops : p '\n' = false) (s : List Char) :
    (s ++ '\n' :: t).head?.any p = s.head?.any p := by
  cases s with
  | nil => simp [stops]
  | cons c s => rfl

theorem splitSign_line (s : List Char) : Number.splitSign (s ++ '\n' :: t) =
    ((Number.splitSign s).1, (Number.splitSign s).2 ++ '\n' :: t) := by
  unfold Number.splitSign
  cases s with
  | nil => rfl
  | cons c s =>
    simp only [List.cons_append]
    split <;> simp_all

/-- A point at the end of a line is not that of a fraction. -/
theorem splitFraction_line (s : List Char) : splitFraction (s ++ '\n' :: t) =
    ((splitFraction s).1, (splitFraction s).2 ++ '\n' :: t) := by
  by_cases point : s.head? = some '.'
  · obtain ⟨more, rfl⟩ := List.head?_eq_some_iff.mp point
    cases more with
    | nil => rfl
    | cons d more =>
      simp only [List.cons_append, splitFraction]
      split
      · rw [← List.cons_append, takeWhile_line t rfl, dropWhile_line t rfl]
      · rfl
  · have further : (s ++ '\n' :: t).head? ≠ some '.' := by
      cases s with
      | nil => simp
      | cons c s => exact point
    rw [splitFraction_eq point, splitFraction_eq further]

theorem number?_line (s : List Char) : number? (s ++ '\n' :: t) =
    (number? s).map fun read => (read.1, read.2 ++ '\n' :: t) := by
  simp only [number?, splitSign_line, takeWhile_line t (p := Char.isDigit) rfl,
    dropWhile_line t (p := Char.isDigit) rfl, splitFraction_line,
    head?_line t (p := Symbol.isNameChar) rfl]
  split <;> rfl

theorem name?_line (s : List Char) : name? (s ++ '\n' :: t) =
    (name? s).map fun read => (read.1, read.2 ++ '\n' :: t) := by
  simp only [name?, takeWhile_line t (p := Symbol.isNameChar) rfl,
    dropWhile_line t (p := Symbol.isNameChar) rfl]
  split <;> rfl

theorem atom?_line (s : List Char) : atom? (s ++ '\n' :: t) =
    (atom? s).map fun read => (read.1, read.2 ++ '\n' :: t) := by
  simp only [atom?, number?_line, name?_line]
  cases number? s <;> rfl

/-- Layout that reaches the end of the line goes on behind it. -/
theorem dropLayout_line (inComment : Bool) (s : List Char) :
    dropLayout comments inComment (s ++ '\n' :: t) =
      match dropLayout comments inComment s with
      | [] => skipLayout comments t
      | c :: rest => c :: (rest ++ '\n' :: t) := by
  induction s generalizing inComment with
  | nil => cases inComment <;> rfl
  | cons c s ih =>
    cases inComment with
    | true => exact ih _
    | false =>
      simp only [List.cons_append, dropLayout]
      split
      · exact ih _
      · split
        · exact ih _
        · rfl

theorem skipLayout_line (s : List Char) : skipLayout comments (s ++ '\n' :: t) =
    match skipLayout comments s with
    | [] => skipLayout comments t
    | c :: rest => c :: (rest ++ '\n' :: t) :=
  dropLayout_line t false s

/-- Behind too many quote marks nothing is read any more, not even the end of the text. -/
theorem next_quote_tooDeep {outer : List Open} (deep : maxDepth ≤ (Open.quote :: outer).length)
    (s : List Char) : next comments (.quote :: outer) s = .error .tooDeep := by
  unfold next
  cases skipLayout comments s with
  | nil =>
    dsimp only
    rw [if_pos deep]
  | cons c rest => exact if_pos deep

/-- A reader that finds the end of the text asks for more, unless it has read too many quote
marks. -/
theorem next_end (skipped : skipLayout comments s = [])
    (decided : Decided (next comments opened s)) :
    ∃ outer, opened = .quote :: outer ∧ maxDepth ≤ opened.length := by
  unfold next at decided
  rw [skipped] at decided
  match opened with
  | [] => exact absurd rfl decided
  | .list _ :: _ => exact absurd rfl decided
  | .data _ :: _ => exact absurd rfl decided
  | .quote :: outer =>
    refine ⟨outer, rfl, Nat.not_lt.mp fun within => decided ?_⟩
    dsimp only
    rw [if_neg (Nat.not_le.mpr within)]

/-- What a token does, and why there is none, does not depend on the lines behind, unless the text
ends where a token is needed. -/
theorem next_line (decided : Decided (next comments opened s)) :
    next comments opened (s ++ '\n' :: t) =
      ((next comments opened s).map (Move.goesOn ('\n' :: t))).mapError
        (Stop.goesOn ('\n' :: t)) := by
  cases skipped : skipLayout comments s with
  | nil =>
    obtain ⟨outer, rfl, deep⟩ := next_end skipped decided
    rw [next_quote_tooDeep deep, next_quote_tooDeep deep]
    rfl
  | cons c rest =>
    unfold next
    rw [skipLayout_line, skipped]
    dsimp only
    cases opened.head?.bind (Open.closedBy? c) with
    | some v => rfl
    | none =>
      dsimp only
      split
      · rfl
      · cases Open.openedBy? c with
        | some inner => rfl
        | none =>
          dsimp only
          rw [← List.cons_append, atom?_line]
          cases atom? (c :: rest) <;> rfl

end

/-! ### Expressions -/

section
variable {comments : Bool} {opened : List Open} {s : List Char} (t : List Char)

theorem readInside_line (decided : Decided (readInside comments opened s)) :
    readInside comments opened (s ++ '\n' :: t) =
      ((readInside comments opened s).map fun read => (read.1, read.2 ++ '\n' :: t)).mapError
        (Stop.goesOn ('\n' :: t)) := by
  -- each token is read in front of the further lines as it is without them
  have token_line {opened : List Open} {s : List Char} {r : Except Stop Move}
      (token : next comments opened s = r) (sure : Decided r) :
      next comments opened (s ++ '\n' :: t) =
        (r.map (Move.goesOn ('\n' :: t))).mapError (Stop.goesOn ('\n' :: t)) :=
    token ▸ next_line t (token ▸ sure)
  fun_induction readInside comments opened s with
  | case1 opened s stop token =>
    exact readInside_error (token_line token (decided_error.mpr (decided_error.mp decided)))
  | case2 opened s o rest token ih =>
    rw [readInside_enter (token_line token decided_ok)]
    exact ih decided
  | case3 opened s outer v rest token value done =>
    rw [readInside_complete (token_line token decided_ok), handOver, done]
    rfl
  | case4 opened s outer v rest token opened' waits ih =>
    rw [readInside_complete (token_line token decided_ok), handOver, waits]
    exact ih decided

/-! ### Programs -/

theorem readAll_refused {stop : Stop} (more : skipLayout comments s ≠ [])
    (refused : readExpression comments s = .error stop) : readAll comments s = .error stop := by
  rw [readAll, if_neg more]
  split
  · rename_i again
    rw [Except.error.inj (again.symm.trans refused)]
  · rename_i read
    exact absurd (read.symm.trans refused) nofun

/-- Only what stands behind the layout counts. -/
theorem readAll_skip {s' : List Char} (same : skipLayout comments s = skipLayout comments s') :
    readAll comments s = readAll comments s' := by
  have expression : readExpression comments s = readExpression comments s' := by
    rw [readExpression, readExpression, readInside_eq, next_skip same, ← readInside_eq]
  by_cases blank : skipLayout comments s = []
  · rw [readAll_done blank, readAll_done (same ▸ blank)]
  · have more : skipLayout comments s' ≠ [] := same ▸ blank
    cases first : readExpression comments s with
    | error stop => rw [readAll_refused blank first, readAll_refused more (expression ▸ first)]
    | ok read => rw [readAll_cons blank first, readAll_cons more (expression ▸ first)]

theorem skipLayout_line_ne_nil (more : skipLayout comments s ≠ []) :
    skipLayout comments (s ++ '\n' :: t) ≠ [] := by
  rw [skipLayout_line]
  cases skipped : skipLayout comments s with
  | nil => exact absurd skipped more
  | cons c rest => nofun

/-- What has been read before the end of a line is read again, and the further lines follow. -/
theorem readAll_line (decided : Decided (readAll comments s)) :
    readAll comments (s ++ '\n' :: t) =
      match readAll comments s with
      | .ok vs => (readAll comments t).map (vs ++ ·)
      | .error stop => .error (stop.goesOn ('\n' :: t)) := by
  fun_induction readAll comments s with
  | case1 s blank =>
    have layout : skipLayout comments (s ++ '\n' :: t) = skipLayout comments t := by
      rw [skipLayout_line, blank]
    rw [readAll_skip layout]
    cases readAll comments t <;> rfl
  | case2 s more stop refused =>
    have sure : Decided (readExpression comments s) :=
      refused ▸ decided_error.mpr (decided_error.mp decided)
    have further := readInside_line t sure
    rw [show readInside comments [] s = .error stop from refused] at further
    exact readAll_refused (skipLayout_line_ne_nil t more) further
  | case3 s more v rest first ih =>
    have further := readInside_line t (first ▸ decided_ok : Decided (readExpression comments s))
    rw [show readInside comments [] s = .ok (v, rest) from first] at further
    rw [readAll_cons (skipLayout_line_ne_nil t more) further]
    cases others : readAll comments rest with
    | error stop =>
      rw [others] at decided ih
      dsimp only
      rw [ih (decided_error.mpr (decided_error.mp decided))]
      rfl
    | ok vs =>
      rw [others] at ih
      dsimp only
      rw [ih decided_ok]
      cases readAll comments t <;> rfl

end

end CooperativeLisp.Reader

namespace CooperativeLisp

open Reader

variable {comments : Bool} {text : String}

theorem readProgram_ok_iff {vs : List Value} :
    readProgram comments text = .ok vs ↔ readAll comments text.toList = .ok vs := by
  unfold readProgram
  dsimp only
  cases readAll comments text.toList <;> simp

theorem readProgram_error_iff {e : Error} : readProgram comments text = .error e ↔
    ∃ stop, readAll comments text.toList = .error stop ∧ e = stop.fault text.toList := by
  unfold readProgram
  dsimp only
  cases readAll comments text.toList <;> simp [eq_comm]

theorem Reader.Stop.fault_endOfInput {stop : Stop} {input : List Char} :
    stop.fault input = .parse .endOfInput ↔ stop = .before [] := by
  match stop with
  | .tooDeep => simp [Stop.fault]
  | .before [] => simp [Stop.fault]
  | .before (c :: rest) => simp [Stop.fault]

theorem readOne_ok_iff {v : Value} :
    readOne comments text = .ok v ↔ Expressions comments text.toList [v] := by
  constructor
  · intro read
    unfold readOne at read
    dsimp only at read
    split at read
    · exact absurd read nofun
    · rename_i u rest first
      obtain ⟨inner, layout, head⟩ := Expression.of_readExpression first
      split at read
      · rename_i blank
        obtain rfl := Except.ok.inj read
        exact .cons layout head (.done (blank ▸ layout_skipLayout comments rest))
      · exact absurd read nofun
  · intro es
    cases es with
    | cons layout head more =>
      have first := head.readExpression_eq layout more.noPoint
      cases more with
      | done behind =>
        have blank : skipLayout comments _ = [] := behind.skip_eq
        unfold readOne
        dsimp only
        rw [first]
        dsimp only
        rw [blank]

theorem toList_line (a b : String) : (a ++ "\n" ++ b).toList = a.toList ++ '\n' :: b.toList := by
  simp

/-- Programs can be cut and joined at the end of a line. Behind a text that is read, a line more is
read just when it is read alone, and what is read is one after the other. A text that fails, other
than for its end, fails with any lines behind it. And the two ways of reading a text agree. -/
theorem readProgram_join (comments : Bool) (a : String) :
    (∀ xs, readProgram comments a = .ok xs → ∀ b zs,
      readProgram comments (a ++ "\n" ++ b) = .ok zs ↔
        ∃ ys, readProgram comments b = .ok ys ∧ zs = xs ++ ys) ∧
    (∀ e, readProgram comments a = .error e → e.fault ≠ .parse .endOfInput → ∀ b,
      ∃ e', readProgram comments (a ++ "\n" ++ b) = .error e') ∧
    ∀ v, readOne comments a = .ok v ↔ readProgram comments a = .ok [v] := by
  refine ⟨fun xs read b zs => ?_, fun e refused other b => ?_, fun v => ?_⟩
  · have all := readProgram_ok_iff.mp read
    have joined := readAll_line b.toList (all ▸ decided_ok : Decided (readAll comments a.toList))
    rw [all] at joined
    simp only [readProgram_ok_iff, toList_line, joined]
    cases readAll comments b.toList <;> simp [Except.map, eq_comm]
  · obtain ⟨stop, all, rfl⟩ := readProgram_error_iff.mp refused
    have sure : Decided (readAll comments a.toList) :=
      all ▸ decided_error.mpr (mt Stop.fault_endOfInput.mpr other)
    have joined := readAll_line b.toList sure
    rw [all, ← toList_line] at joined
    exact ⟨_, readProgram_error_iff.mpr ⟨_, joined, rfl⟩⟩
  · rw [readOne_ok_iff, readProgram_ok_iff, readAll_iff]

/-- A call and a comment before the end of the line, and a data list behind it; and a bracket that
nothing opens. -/
theorem readProgram_join_lines :
    (readProgram true "(f 'x) ; note" = .ok [.list [.symbol "f", quoted (.symbol "x")]] ∧
      readProgram true "[t]" = .ok [quoted (.list [.truth])] ∧
      readProgram true ("(f 'x) ; note" ++ "\n" ++ "[t]") =
        .ok [.list [.symbol "f", quoted (.symbol "x")], quoted (.list [.truth])]) ∧
    ∃ e, readProgram true ")" = .error e ∧ e.fault ≠ .parse .endOfInput ∧
      ∃ e', readProgram true (")" ++ "\n" ++ "[t]") = .error e' := by
  have name {depth : Nat} {c : Char} {rest : List Char} (within : depth < maxDepth)
      (valid : Symbol.isName [c] = true) (apart : Apart rest) :
      Expression true depth ([c] ++ rest) (ofName (String.ofList [c])) rest :=
    .name within valid apart
  have note : Layout true (';' :: (" note".toList ++ [])) [] :=
    .comment rfl (by decide) (.inl rfl) .none
  have call : Expressions true "(f 'x) ; note".toList
      [.list [.symbol "f", quoted (.symbol "x")]] := by
    refine .cons .none (.bracket (b := .round) (by decide) ?_) (.done (.blank (.inl rfl) note))
    refine .cons .none (name (by decide) (by decide) (apart_iff.mpr rfl)) ?_
    refine .cons (.blank (.inl rfl) .none) (.quote (by decide) .none ?_) (.close .none)
    exact name (by decide) (by decide) (apart_iff.mpr rfl)
  have data : Expressions true "[t]".toList [quoted (.list [.truth])] := by
    have elements : Elements true 1 .square "t]".toList [.truth] [] :=
      .cons .none (name (by decide) (by decide) (apart_iff.mpr rfl)) (.close .none)
    exact .cons .none (.bracket (by decide) elements) (.done .none)
  have readCall := readProgram_ok_iff.mpr call.readAll_eq
  have readData := readProgram_ok_iff.mpr data.readAll_eq
  have refused : readProgram true ")" = .error (Stop.fault [')'] (.before [')'])) :=
    readProgram_error_iff.mpr ⟨_, readAll_refused (by decide) (readInside_error rfl), rfl⟩
  refine ⟨⟨readCall, readData, ?_⟩, _, refused, by simp [Stop.fault, Error.ofFault], ?_⟩
  · exact ((readProgram_join true _).1 _ readCall _ _).mpr ⟨_, readData, rfl⟩
  · exact (readProgram_join true _).2.1 _ refused (by simp [Stop.fault, Error.ofFault]) _

end CooperativeLisp

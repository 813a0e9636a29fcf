import CooperativeLisp.Proofs.Balance
import CooperativeLisp.Proofs.History

/-!
The callables that are invoked in the course of a compilation or of a run. Calls of natives that name
another callable count together with the one they name, and so do the calls in the expressions that
declaring forms evaluate while something is being compiled. Main statement: what is invoked is
determined, and the less of it there is the earlier the work is cut off.
-/

namespace CooperativeLisp

variable {σ : Type}

/-- Callables that have been invoked, the first one first, with their arguments. -/
abbrev CallLog := List (Callable × List Value)

namespace Host

/-- What is invoked in the course of some work: until it ends, in the world that it leads to, or until
it is cut off. -/
inductive Invokes (host : Host σ) : Work → World σ → CallLog → Option (World σ) → Prop
  | cut {work : Work} {w : World σ} : Invokes host work w [] Option.none
  | idle {w : World σ} : Invokes host .idle w [] (some w)
  | nil {env : Environment} {w : World σ} : Invokes host (.expressions env []) w [] (some w)
  | plain {env : Environment} {e : Value} {pending : List Value} {piece : Except Error Piece}
      {log : CallLog} {w w₁ : World σ} {till : Option (World σ)} :
      host.inside env e w = Option.none → host.Pieces env e w piece w₁ →
      Invokes host (.further env pending piece) w₁ log till →
      Invokes host (.expressions env (e :: pending)) w log till
  | within {env : Environment} {e : Value} {pending : List Value} {work : Work} {log : CallLog}
      {w w₁ : World σ} : host.inside env e w = some (work, w₁) →
      Invokes host work w₁ log Option.none →
      Invokes host (.expressions env (e :: pending)) w log Option.none
  | nested {env : Environment} {e : Value} {pending : List Value} {piece : Except Error Piece}
      {work : Work} {log more : CallLog} {w w₁ w₂ : World σ} {till : Option (World σ)} :
      host.inside env e w = some (work, w₁) → Invokes host work w₁ log (some w₂) →
      host.Pieces env e w piece w₂ → Invokes host (.further env pending piece) w₂ more till →
      Invokes host (.expressions env (e :: pending)) w (log ++ more) till
  | declared {root : Environment} {cap : BacktraceCap} {bound : List String} {w : World σ} :
      Invokes host (.declaring root cap bound []) w [] (some w)
  | misnamed {root : Environment} {cap : BacktraceCap} {bound : List String} {b : Binding}
      {bs : List Binding} {e : Error} {w : World σ} : Engine.declaredName b.name = .error e →
      Invokes host (.declaring root cap bound (b :: bs)) w [] (some w)
  | defined {root : Environment} {cap : BacktraceCap} {bound : List String} {b : Binding}
      {bs : List Binding} {name : String} {w : World σ} :
      Engine.declaredName b.name = .ok name → w.scopes.binds root name = true →
      Invokes host (.declaring root cap bound (b :: bs)) w [] (some w)
  | initializing {root : Environment} {cap : BacktraceCap} {bound : List String} {b : Binding}
      {bs : List Binding} {name : String} {log : CallLog} {w : World σ} :
      Engine.declaredName b.name = .ok name → w.scopes.binds root name = false →
      Invokes host (.evaluating root b.init cap) w log Option.none →
      Invokes host (.declaring root cap bound (b :: bs)) w log Option.none
  | fails {root : Environment} {cap : BacktraceCap} {bound : List String} {b : Binding}
      {bs : List Binding} {name : String} {e : Error} {log : CallLog} {w w' : World σ} :
      Engine.declaredName b.name = .ok name → w.scopes.binds root name = false →
      Invokes host (.evaluating root b.init cap) w log (some w') →
      host.Answers (·.evaluateOnce root b.init cap) w (.error e) w' →
      Invokes host (.declaring root cap bound (b :: bs)) w log (some w')
  | refused {root : Environment} {cap : BacktraceCap} {bound : List String} {b : Binding}
      {bs : List Binding} {name : String} {v : Value} {e : Error} {log : CallLog}
      {w w₁ w' : World σ} :
      Engine.declaredName b.name = .ok name → w.scopes.binds root name = false →
      Invokes host (.evaluating root b.init cap) w log (some w₁) →
      host.Answers (·.evaluateOnce root b.init cap) w (.ok v) w₁ →
      w₁.bind root name v = (.error e, w') →
      Invokes host (.declaring root cap bound (b :: bs)) w log (some w')
  | binds {root : Environment} {cap : BacktraceCap} {bound : List String} {b : Binding}
      {bs : List Binding} {name : String} {v : Value} {log more : CallLog} {w w₁ w₂ : World σ}
      {till : Option (World σ)} :
      Engine.declaredName b.name = .ok name → w.scopes.binds root name = false →
      Invokes host (.evaluating root b.init cap) w log (some w₁) →
      host.Answers (·.evaluateOnce root b.init cap) w (.ok v) w₁ →
      w₁.bind root name v = (.ok (), w₂) →
      Invokes host (.declaring root cap (bound ++ [name]) bs) w₂ more till →
      Invokes host (.declaring root cap bound (b :: bs)) w (log ++ more) till
  | compiling {env : Environment} {e : Value} {cap : BacktraceCap} {log : CallLog} {w : World σ} :
      Invokes host (.expressions env [e]) w log Option.none →
      Invokes host (.evaluating env e cap) w log Option.none
  | evaluating {env : Environment} {e : Value} {cap : BacktraceCap} {s : Stream}
      {r : Except Error Value} {log more : CallLog} {w w₁ : World σ} {till : Option (World σ)} :
      Invokes host (.expressions env [e]) w log (some w₁) → host.Answers (·.compile env e) w s w₁ →
      Invokes host (.running (.pending (.start s cap)) (.done r)) w₁ more till →
      Invokes host (.evaluating env e cap) w (log ++ more) till
  | arrived {a : Advance} {w : World σ} : Invokes host (.running a a) w [] (some w)
  | plainStep {m : Machine} {a b : Advance} {log : CallLog} {w : World σ} {till : Option (World σ)} :
      m.invocation? = Option.none → host.Steps m w a w → Invokes host (.running a b) w log till →
      Invokes host (.running (.pending m) b) w log till
  | stepping {m : Machine} {i : Invocation} {b : Advance} {log : CallLog} {w : World σ} :
      m.invocation? = some i → Invokes host (.performing i.operation i.args) w log Option.none →
      Invokes host (.running (.pending m) b) w log Option.none
  | step {m : Machine} {i : Invocation} {a b : Advance} {log more : CallLog} {w w₁ : World σ}
      {till : Option (World σ)} : m.invocation? = some i →
      Invokes host (.performing i.operation i.args) w log (some w₁) → host.Steps m w a w₁ →
      Invokes host (.running a b) w₁ more till →
      Invokes host (.running (.pending m) b) w (log ++ more) till
  | calling {c : Callable} {args : List Value} {r : Except Error Reply} {log : CallLog}
      {w w₁ : World σ} {till : Option (World σ)} :
      host.Answers (fun g => (g.reply c args).run) w r w₁ →
      Invokes host (.replied r) w₁ log till →
      Invokes host (.calling c args) w ((c, args) :: log) till

variable {host : Host σ} {env : Environment} {e : Value} {cap : BacktraceCap} {work : Work}
variable {w w' w₁ : World σ} {a b : Advance} {m : Machine} {r : Except Error Value} {log : CallLog}
variable {till : Option (World σ)}

/-- Whatever is on record has invoked something, or nothing. -/
theorem Records.invokes {events : List Event} (records : host.Records work w events w') :
    ∃ log, host.Invokes work w log (some w') := by
  induction records with
  | idle => exact ⟨_, .idle⟩
  | nil => exact ⟨_, .nil⟩
  | plain inside pieces _ further =>
    obtain ⟨log, further⟩ := further
    exact ⟨log, .plain inside pieces further⟩
  | nested inside _ pieces _ first further =>
    obtain ⟨_, first⟩ := first
    obtain ⟨_, further⟩ := further
    exact ⟨_, .nested inside first pieces further⟩
  | declared => exact ⟨_, .declared⟩
  | misnamed named => exact ⟨_, .misnamed named⟩
  | defined named bound => exact ⟨_, .defined named bound⟩
  | fails named free _ answers evaluating =>
    obtain ⟨_, evaluating⟩ := evaluating
    exact ⟨_, .fails named free evaluating answers⟩
  | refused named free _ answers bind evaluating =>
    obtain ⟨_, evaluating⟩ := evaluating
    exact ⟨_, .refused named free evaluating answers bind⟩
  | binds named free _ answers bind _ evaluating declaring =>
    obtain ⟨_, evaluating⟩ := evaluating
    obtain ⟨_, declaring⟩ := declaring
    exact ⟨_, .binds named free evaluating answers bind declaring⟩
  | evaluating _ compiled _ first run =>
    obtain ⟨_, first⟩ := first
    obtain ⟨_, run⟩ := run
    exact ⟨_, .evaluating first compiled run⟩
  | arrived => exact ⟨_, .arrived⟩
  | plainStep none step _ run =>
    obtain ⟨_, run⟩ := run
    exact ⟨_, .plainStep none step run⟩
  | step some _ step _ performing run =>
    obtain ⟨_, performing⟩ := performing
    obtain ⟨_, run⟩ := run
    exact ⟨_, .step some performing step run⟩
  | calling replies _ replied =>
    obtain ⟨_, replied⟩ := replied
    exact ⟨_, .calling replies replied⟩

/-- Every evaluation that ends has invoked something, or nothing. -/
theorem invokes_of_evaluateOnce (answers : host.Answers (·.evaluateOnce env e cap) w r w') :
    ∃ log, host.Invokes (.evaluating env e cap) w log (some w') := by
  obtain ⟨fuel, run⟩ := answers
  obtain ⟨events, records⟩ := (Engine.Recorded.withFuel host fuel).evaluateOnce run
  exact records.invokes

/-! ### Runs -/

/-- An induction on the frames of a run. -/
theorem Invokes.run_induction {stop : Advance} {P : Advance → World σ → CallLog → Prop}
    (cut : till = Option.none → ∀ {a w}, P a w []) (arrived : ∀ {w}, till = some w → P stop w [])
    (plainStep : ∀ {m a log w}, m.invocation? = Option.none → host.Steps m w a w →
      host.Invokes (.running a stop) w log till → P a w log → P (.pending m) w log)
    (stepping : till = Option.none → ∀ {m i log w}, m.invocation? = some i →
      host.Invokes (.performing i.operation i.args) w log Option.none → P (.pending m) w log)
    (step : ∀ {m i a log more w w₁}, m.invocation? = some i →
      host.Invokes (.performing i.operation i.args) w log (some w₁) → host.Steps m w a w₁ →
      host.Invokes (.running a stop) w₁ more till → P a w₁ more → P (.pending m) w (log ++ more))
    (invokes : host.Invokes (.running a stop) w log till) : P a w log := by
  generalize start : Work.running a stop = work at invokes
  induction invokes generalizing a with
  | cut => exact cut rfl
  | arrived =>
    cases start
    exact arrived rfl
  | plainStep none steps run ih =>
    cases start
    exact plainStep none steps run (ih cut arrived plainStep stepping step rfl)
  | stepping some performing =>
    cases start
    exact stepping rfl some performing
  | step some performing steps run _ ih =>
    cases start
    exact step some performing steps run (ih cut arrived plainStep stepping step rfl)
  | _ => cases start

/-- A run of which it is known what it invokes until it ends comes to its end. -/
theorem Invokes.ends (invokes : host.Invokes (.running a (.done r)) w log (some w')) :
    host.Ends a w r w' := by
  refine Invokes.run_induction (P := fun a w _ => host.Ends a w r w') ?_ ?_ ?_ ?_ ?_ invokes
  · exact fun none => nomatch none
  · rintro w ⟨⟩
    exact ends_done.mpr ⟨rfl, rfl⟩
  · exact fun _ step _ ends => step.reaches.ends_iff.mpr ends
  · exact fun none => nomatch none
  · exact fun _ _ step _ ends => step.reaches.ends_iff.mpr ends

/-- A run that is cut off may have been on its way to anywhere. A run that ends stops where it ends. -/
theorem Invokes.restopped {r' : Except Error Value} {more : CallLog}
    (ends : host.Invokes (.running a (.done r)) w log (some w'))
    (invokes : host.Invokes (.running a (.done r')) w more till) :
    host.Invokes (.running a (.done r)) w more till := by
  cases till with
  | none =>
    refine Invokes.run_induction (P := fun a w log => host.Invokes (.running a (.done r)) w log
      Option.none) (fun _ => .cut) ?_ ?_ ?_ ?_ invokes
    · exact fun ended => nomatch ended
    · exact fun none step _ run => .plainStep none step run
    · exact fun _ => .stepping
    · exact fun some performing step _ run => .step some performing step run
  | some w₁ =>
    obtain ⟨n, calls, reach⟩ := ends.ends
    obtain ⟨k, calls', reach'⟩ := invokes.ends
    obtain ⟨-, -, rfl, -⟩ := reach.unique reach'
    exact invokes

theorem invokes_idle : host.Invokes .idle w log till ↔ log = [] ∧ ∀ w' ∈ till, w' = w := by
  constructor
  · intro invokes
    cases invokes with
    | cut => exact ⟨rfl, nofun⟩
    | idle => exact ⟨rfl, fun _ same => (Option.some.inj same).symm⟩
  · rintro ⟨rfl, same⟩
    cases till with
    | none => exact .cut
    | some w' =>
      rw [same w' rfl]
      exact .idle

section Frames

variable {frames : List Frame} {stack trace : List Value} {operation : Operation} {args : List Value}
variable {origin : Value}

theorem invokes_value {v : Value} :
    host.Invokes (.running (.pending ⟨.value v :: frames, stack, trace, cap⟩) (.done r)) w log till ↔
      host.Invokes (.running (Machine.settle ⟨frames, v :: stack, trace, cap⟩) (.done r)) w log
        till := by
  constructor
  · intro invokes
    cases invokes with
    | cut => exact .cut
    | plainStep _ step run =>
      obtain ⟨rfl, -⟩ := steps_value.mp step
      exact run
    | stepping some | step some => cases some
  · exact .plainStep rfl (steps_value.mpr ⟨rfl, rfl⟩)

theorem invokes_error {e : Error} :
    host.Invokes (.running (.pending ⟨.error e :: frames, stack, trace, cap⟩) (.done r)) w log till ↔
      host.Invokes (.running (.done (.error (e.withTrace trace cap))) (.done r)) w log till := by
  constructor
  · intro invokes
    cases invokes with
    | cut => exact .cut
    | plainStep _ step run =>
      obtain ⟨rfl, -⟩ := steps_error.mp step
      exact run
    | stepping some | step some => cases some
  · exact .plainStep rfl (steps_error.mpr ⟨rfl, rfl⟩)

/-- A call frame on top of its arguments invokes what its operation does, and then what follows on the
answer. -/
theorem invokes_call :
    host.Invokes (.running (.pending
        ⟨.call operation args.length origin :: frames, args.reverse ++ stack, trace, cap⟩) (.done r))
      w log till ↔
    (till = Option.none ∧ host.Invokes (.performing operation args) w log Option.none) ∨
      ∃ answer first more w₁, log = first ++ more ∧
        host.Invokes (.performing operation args) w first (some w₁) ∧
        host.Performs operation args w answer w₁ ∧
        host.Invokes (.running (Machine.answered
          ⟨frames, stack, (origin :: trace).take cap, cap⟩ answer) (.done r)) w₁ more till := by
  have enough : args.length ≤ (args.reverse ++ stack).length := by
    rw [List.length_append, List.length_reverse]
    omega
  have taken : ((args.reverse ++ stack).take args.length).reverse = args := by
    rw [List.take_append_of_le_length (by simp), List.take_of_length_le (by simp),
      List.reverse_reverse]
  have left : (args.reverse ++ stack).drop args.length = stack := by
    rw [List.drop_append_of_le_length (by simp), List.drop_of_length_le (by simp),
      List.nil_append]
  have invocation : Machine.invocation?
      ⟨.call operation args.length origin :: frames, args.reverse ++ stack, trace, cap⟩ =
        some ⟨operation, args, origin⟩ := by
    rw [Machine.invocation?_call enough, taken]
  constructor
  · intro invokes
    cases invokes with
    | cut => exact Or.inl ⟨rfl, .cut⟩
    | plainStep none => cases invocation.symm.trans none
    | stepping some performing =>
      cases invocation.symm.trans some
      exact Or.inl ⟨rfl, performing⟩
    | step some performing step run =>
      cases invocation.symm.trans some
      obtain ⟨answer, performs, rfl⟩ := (steps_call enough).mp step
      rw [taken] at performs
      rw [left] at run
      exact Or.inr ⟨answer, _, _, _, rfl, performing, performs, run⟩
  · rintro (⟨rfl, performing⟩ | ⟨answer, first, more, w₁, rfl, performing, performs, run⟩)
    · exact .stepping invocation performing
    · exact .step invocation performing performs.step run

end Frames

/-- The first thing that a call frame of a callable invokes is the callable. -/
theorem invokes_call_first {c : Callable} {args stack trace : List Value} {frames : List Frame}
    {origin : Value} (run : host.Invokes (.running (.pending ⟨.call (.callable c) args.length origin ::
      frames, args.reverse ++ stack, trace, cap⟩) (.done r)) w log till) :
    (till = Option.none ∧ log = []) ∨ ∃ after, log = (c, args) :: after := by
  obtain ⟨rfl, calling⟩ | ⟨answer, first, more, w₁, rfl, calling, -, -⟩ := invokes_call.mp run
  · cases calling with
    | cut => exact Or.inl ⟨rfl, rfl⟩
    | calling => exact Or.inr ⟨_, rfl⟩
  · cases calling with
    | calling => exact Or.inr ⟨_, rfl⟩

/-! ### Natives -/

section Natives

variable {n : Native} {args : List Value} {reply : Except Error Reply} {answer : Except Error Outcome}

theorem replies_native : host.Answers (fun g => (g.reply (.native n) args).run) w reply w₁ ↔
    host.nativeReply n args w = (reply, w₁) := by
  constructor
  · rintro ⟨fuel, run⟩
    dsimp only at run
    rw [Engine.reply_native, Engine.withFuel_host] at run
    exact Option.some.inj run
  · intro replied
    refine ⟨0, ?_⟩
    dsimp only
    rw [Engine.reply_native, Engine.withFuel_host, replied]

/-- The reply of a native says what is invoked behind it, and what the answer is. -/
theorem invokes_native (replied : host.nativeReply n args w = (reply, w₁)) :
    host.Invokes (.calling (.native n) args) w log till ↔ (log = [] ∧ till = Option.none) ∨
      ∃ more, log = (.native n, args) :: more ∧ host.Invokes (.replied reply) w₁ more till := by
  constructor
  · intro invokes
    cases invokes with
    | cut => exact Or.inl ⟨rfl, rfl⟩
    | calling replies further =>
      cases replied.symm.trans (replies_native.mp replies)
      exact Or.inr ⟨_, rfl, further⟩
  · rintro (⟨rfl, rfl⟩ | ⟨more, rfl, further⟩)
    · exact .cut
    · exact .calling (replies_native.mpr replied) further

theorem performs_native (replied : host.nativeReply n args w = (reply, w₁)) :
    host.Performs (.callable (.native n)) args w answer w' ↔
      host.Answers (fun g => g.handle g.fuel reply) w₁ answer w' := by
  refine ⟨?_, invokes_of_native replied⟩
  rintro ⟨fuel, run⟩
  cases fuel with
  | zero => cases run
  | succ fuel =>
    obtain ⟨other, w₂, replies, handled⟩ := Effect.bind_eq_some.mp
      ((congrFun (Engine.invokeWithin_succ _ fuel (.native n) args) w).symm.trans run)
    cases replied.symm.trans (replies_native.mp ⟨_, replies⟩)
    exact .of_rounds (f := fun rounds g => g.handle rounds reply)
      (fun less below => below.handle less reply) handled

section Frames

variable {frames : List Frame} {stack trace : List Value} {origin v : Value}

/-- A native that answers with a value invokes nothing else. -/
theorem invokes_answering (replied : host.nativeReply n args w = (.ok (.answer (.value v)), w)) :
    host.Invokes (.running (.pending ⟨.call (.callable (.native n)) args.length origin :: frames,
        args.reverse ++ stack, trace, cap⟩) (.done r)) w log till ↔
      (log = [] ∧ till = Option.none) ∨ ∃ more, log = (.native n, args) :: more ∧
        host.Invokes (.running (Machine.settle ⟨frames, v :: stack, (origin :: trace).take cap, cap⟩)
          (.done r)) w more till := by
  have performs {answer : Except Error Outcome} {w₁ : World σ} :
      host.Performs (.callable (.native n)) args w answer w₁ ↔ answer = .ok (.value v) ∧ w₁ = w :=
    (performs_native replied).trans answers_pure
  rw [invokes_call]
  simp only [Work.performing, invokes_native replied, Work.replied, performs, invokes_idle]
  constructor
  · rintro (⟨rfl, ⟨rfl, -⟩ | ⟨_, rfl, rfl, -⟩⟩ | ⟨_, _, more, _, rfl, first, ⟨rfl, rfl⟩, run⟩)
    · exact Or.inl ⟨rfl, rfl⟩
    · exact Or.inr ⟨[], rfl, .cut⟩
    · obtain ⟨-, ended⟩ | ⟨_, rfl, rfl, -⟩ := first
      · cases ended
      · exact Or.inr ⟨more, rfl, run⟩
  · rintro (⟨rfl, rfl⟩ | ⟨more, rfl, run⟩)
    · exact Or.inl ⟨rfl, Or.inl ⟨rfl, trivial⟩⟩
    · refine Or.inr ⟨_, [_], more, w, rfl, Or.inr ⟨[], rfl, rfl, ?_⟩, ⟨rfl, rfl⟩, run⟩
      exact fun _ same => (Option.some.inj same).symm

/-- A native that names another callable does what a call frame of that one does. -/
theorem invokes_forwarding {c : Callable} {args' : List Value}
    (replied : host.nativeReply n args w = (.ok (.invoke c args'), w)) :
    host.Invokes (.running (.pending ⟨.call (.callable (.native n)) args.length origin :: frames,
        args.reverse ++ stack, trace, cap⟩) (.done r)) w log till ↔
      (log = [] ∧ till = Option.none) ∨ ∃ more, log = (.native n, args) :: more ∧
        host.Invokes (.running (.pending ⟨.call (.callable c) args'.length origin :: frames,
          args'.reverse ++ stack, trace, cap⟩) (.done r)) w more till := by
  have performs {answer : Except Error Outcome} {w₁ : World σ} :
      host.Performs (.callable (.native n)) args w answer w₁ ↔
        host.Performs (.callable c) args' w answer w₁ :=
    performs_native replied
  simp only [invokes_call, Work.performing, invokes_native replied, Work.replied, performs]
  constructor
  · rintro (⟨rfl, ⟨rfl, -⟩ | ⟨more, rfl, calling⟩⟩ | ⟨answer, _, later, w₁, rfl, first, performs, run⟩)
    · exact Or.inl ⟨rfl, rfl⟩
    · exact Or.inr ⟨more, rfl, Or.inl ⟨rfl, calling⟩⟩
    · obtain ⟨-, ended⟩ | ⟨more, rfl, calling⟩ := first
      · cases ended
      · exact Or.inr ⟨_, rfl, Or.inr ⟨answer, more, later, w₁, rfl, calling, performs, run⟩⟩
  · rintro (⟨rfl, rfl⟩ | ⟨_, rfl, ⟨rfl, calling⟩ | ⟨answer, more, later, w₁, rfl, calling, performs,
      run⟩⟩)
    · exact Or.inl ⟨rfl, Or.inl ⟨rfl, trivial⟩⟩
    · exact Or.inl ⟨rfl, Or.inr ⟨_, rfl, calling⟩⟩
    · exact Or.inr ⟨answer, _, later, w₁, rfl, Or.inr ⟨more, rfl, calling⟩, performs, run⟩

end Frames

end Natives

/-! ### Work lists -/

theorem Pieces.unique {env : Environment} {e : Value} {piece piece' : Except Error Piece}
    {w₂ : World σ} (first : host.Pieces env e w piece w₁) (second : host.Pieces env e w piece' w₂) :
    piece = piece' ∧ w₁ = w₂ :=
  Answers.unique (fun below => below.compileOne (fun env e => below.compile env e) env e) first second

section Expressions

variable {env : Environment} {e operator : Value} {operands pending : List Value}
variable {piece : Except Error Piece}

theorem invokes_plain (inside : host.inside env e w = Option.none)
    (pieces : host.Pieces env e w piece w₁) :
    host.Invokes (.expressions env (e :: pending)) w log till ↔
      host.Invokes (.further env pending piece) w₁ log till := by
  constructor
  · intro invokes
    cases invokes with
    | cut => exact .cut
    | plain _ other further =>
      obtain ⟨rfl, rfl⟩ := pieces.unique other
      exact further
    | within some | nested some => cases inside.symm.trans some
  · exact .plain inside pieces

theorem invokes_nested {w₂ : World σ} (inside : host.inside env e w = some (work, w₁))
    (pieces : host.Pieces env e w piece w₂) :
    host.Invokes (.expressions env (e :: pending)) w log till ↔
      (till = Option.none ∧ host.Invokes work w₁ log Option.none) ∨
        ∃ first more, log = first ++ more ∧ host.Invokes work w₁ first (some w₂) ∧
          host.Invokes (.further env pending piece) w₂ more till := by
  constructor
  · intro invokes
    cases invokes with
    | cut => exact Or.inl ⟨rfl, .cut⟩
    | plain none => cases none.symm.trans inside
    | within some first =>
      cases inside.symm.trans some
      exact Or.inl ⟨rfl, first⟩
    | nested some first other further =>
      cases inside.symm.trans some
      obtain ⟨rfl, rfl⟩ := pieces.unique other
      exact Or.inr ⟨_, _, rfl, first, further⟩
  · rintro (⟨rfl, first⟩ | ⟨first, more, rfl, work, further⟩)
    · exact .within inside first
    · exact .nested inside work pieces further

/-- An application of a native or a closure leaves its operands to be compiled. -/
theorem invokes_application {c : Callable} (resolved : w.scopes.operator env operator = .ok c)
    (function : c.IsFunction) :
    host.Invokes (.expressions env (Library.apply operator operands :: pending)) w log till ↔
      host.Invokes (.expressions env (operands.reverse ++ pending)) w log till := by
  have inside : host.inside env (Library.apply operator operands) w = Option.none := by
    cases c with
    | form | expander => exact function.elim
    | native | closure => simp only [Host.inside, Library.apply, resolved]
  have pieces : host.Pieces env (Library.apply operator operands) w
      (.ok (.application c operands)) w := .of_run fun g _ => by
    rw [Engine.compileOne_operator resolved, Engine.compileApplication_function function]
  exact invokes_plain inside pieces

theorem invokes_computed (computes : operator.IsComputed) :
    host.Invokes (.expressions env (Library.apply operator operands :: pending)) w log till ↔
      host.Invokes (.expressions env
        (Library.apply Engine.callNative (operator :: operands) :: pending)) w log till := by
  obtain ⟨first, rest, rfl⟩ := computes
  have pieces : host.Pieces env (Library.apply (.list (first :: rest)) operands) w
      (.ok (.instead (Library.apply Engine.callNative (.list (first :: rest) :: operands)))) w :=
    .of_run fun _ _ => rfl
  exact invokes_plain rfl pieces

/-- A symbol that is bound invokes nothing. -/
theorem invokes_symbol {name : String} {v : Value} (notNil : name ≠ Symbol.nilName)
    (notTruth : name ≠ Symbol.truthName) (bound : w.scopes.get? env name = some v) :
    host.Invokes (.expressions env (.symbol name :: pending)) w log till ↔
      host.Invokes (.expressions env pending) w log till := by
  have pieces : host.Pieces env (.symbol name) w (.ok (.value v)) w := .of_run fun g _ => by
    rw [Engine.compileOne_symbol notNil notTruth, Scopes.lookup, bound]
    rfl
  exact invokes_plain rfl pieces

theorem invokes_nil :
    host.Invokes (.expressions env []) w log till ↔ log = [] ∧ ∀ w' ∈ till, w' = w := by
  refine Iff.trans (b := host.Invokes .idle w log till) ⟨fun invokes => ?_, fun invokes => ?_⟩
    invokes_idle
  · cases invokes with
    | cut => exact .cut
    | nil => exact .idle
  · cases invokes with
    | cut => exact .cut
    | idle => exact .nil

end Expressions

/-! ### Uniqueness -/

/-- Work that comes to an end of its own, unlike a part of a run. -/
def Whole : Work → Prop
  | .running _ stop => ∃ r, stop = .done r
  | _ => True

theorem whole_further {env : Environment} {pending : List Value} (piece : Except Error Piece) :
    Whole (.further env pending piece) := by
  obtain e | v | s | e | ⟨c, operands⟩ := piece
  case ok.splice =>
    rw [Work.further_splice]
    split <;> trivial
  all_goals trivial

theorem whole_performing {operation : Operation} {args : List Value} : Whole (.performing operation args) := by
  cases operation <;> trivial

theorem whole_replied (reply : Except Error Reply) : Whole (.replied reply) := by
  obtain e | ⟨v | s | ⟨env, e⟩⟩ | ⟨c, args⟩ := reply <;> trivial

theorem whole_inside {env : Environment} {e : Value}
    (inside : host.inside env e w = some (work, w₁)) : Whole work := by
  have insideForm {f : Form} {operands : List Value}
      (inside : host.insideForm f operands env w = some (work, w₁)) : Whole work := by
    unfold Host.insideForm at inside
    split at inside
    case h_4 | h_5 =>
      split at inside <;> cases inside
      trivial
    all_goals cases inside <;> trivial
  unfold Host.inside at inside
  split at inside
  · split at inside
    · split at inside
      · exact insideForm inside
      · cases inside
    · cases inside
  · cases inside

/-- What is invoked until work is cut off, or until it ends, beside what is until it ends. -/
def Part (log : CallLog) (w : World σ) (log' : CallLog) (till : Option (World σ)) : Prop :=
  (till = Option.none ∧ log' <+: log) ∨ (till = some w ∧ log' = log)

section Part

variable {more log' earlier : CallLog}

theorem Part.cut : Part log w [] Option.none :=
  Or.inl ⟨rfl, List.nil_prefix⟩

theorem Part.ended : Part log w log (some w) :=
  Or.inr ⟨rfl, rfl⟩

theorem Part.of_some (part : Part log w log' (some w')) : log' = log ∧ w' = w := by
  obtain ⟨cut, -⟩ | ⟨ended, same⟩ := part
  · cases cut
  · exact ⟨same, Option.some.inj ended⟩

theorem Part.before (part : Part earlier w₁ log' Option.none) (before : earlier <+: log) :
    Part log w log' Option.none := by
  obtain ⟨-, first⟩ | ⟨ended, -⟩ := part
  · exact Or.inl ⟨rfl, first.trans before⟩
  · cases ended

theorem Part.behind (earlier : CallLog) (part : Part more w log' till) :
    Part (earlier ++ more) w (earlier ++ log') till := by
  obtain ⟨cut, before⟩ | ⟨ended, rfl⟩ := part
  · exact Or.inl ⟨cut, (List.prefix_append_right_inj earlier).mpr before⟩
  · exact Or.inr ⟨ended, rfl⟩

end Part

theorem evaluateOnce_unique {env : Environment} {e : Value} {cap : BacktraceCap}
    {r' : Except Error Value} {w₂ : World σ} (first : host.Answers (·.evaluateOnce env e cap) w r w₁)
    (second : host.Answers (·.evaluateOnce env e cap) w r' w₂) : r = r' ∧ w₁ = w₂ :=
  first.unique (fun below => below.evaluateOnce ..) second

/-- What work invokes is determined: until it is cut off it invokes the first part of what it invokes
until it ends. By induction on the work. -/
theorem Invokes.determined (invokes : host.Invokes work w log till) :
    ∀ {w'}, till = some w' → Whole work →
      ∀ {log' till'}, host.Invokes work w log' till' → Part log w' log' till' := by
  induction invokes with
  | cut => exact nofun
  | idle =>
    rintro _ ⟨⟩ - _ _ (_ | _)
    · exact .cut
    · exact .ended
  | nil =>
    rintro _ ⟨⟩ - _ _ (_ | _)
    · exact .cut
    · exact .ended
  | plain inside pieces further ih =>
    rintro _ rfl - _ _ other
    exact ih rfl (whole_further _) ((invokes_plain inside pieces).mp other)
  | within => exact nofun
  | nested inside first pieces further ih ih' =>
    rintro _ rfl - _ _ other
    obtain ⟨rfl, one⟩ | ⟨_, _, rfl, one, two⟩ := (invokes_nested inside pieces).mp other
    · exact (ih rfl (whole_inside inside) one).before (List.prefix_append ..)
    · obtain ⟨rfl, -⟩ := (ih rfl (whole_inside inside) one).of_some
      exact (ih' rfl (whole_further _) two).behind _
  | declared =>
    rintro _ ⟨⟩ - _ _ (_ | _)
    · exact .cut
    · exact .ended
  | misnamed named =>
    rintro _ ⟨⟩ - _ _ other
    cases other with
    | cut => exact .cut
    | misnamed => exact .ended
    | defined other | initializing other | fails other | refused other | binds other =>
      cases named.symm.trans other
  | defined named bound =>
    rintro _ ⟨⟩ - _ _ other
    cases other with
    | cut => exact .cut
    | misnamed other => cases named.symm.trans other
    | defined => exact .ended
    | initializing other free | fails other free | refused other free | binds other free =>
      cases named.symm.trans other
      cases bound.symm.trans free
  | initializing => exact nofun
  | fails named free evaluating answers ih =>
    rintro _ ⟨⟩ - _ _ other
    cases other with
    | cut => exact .cut
    | misnamed other => cases named.symm.trans other
    | defined other bound =>
      cases named.symm.trans other
      cases bound.symm.trans free
    | initializing _ _ other | fails _ _ other => exact ih rfl trivial other
    | refused _ _ _ other | binds _ _ _ other => cases (evaluateOnce_unique answers other).1
  | refused named free evaluating answers bind ih =>
    rintro _ ⟨⟩ - _ _ other
    cases other with
    | cut => exact .cut
    | misnamed other => cases named.symm.trans other
    | defined other bound =>
      cases named.symm.trans other
      cases bound.symm.trans free
    | initializing _ _ other => exact (ih rfl trivial other).before (List.prefix_refl _)
    | fails _ _ _ other => cases (evaluateOnce_unique answers other).1
    | refused other _ evaluating ok bind' =>
      cases named.symm.trans other
      obtain ⟨rfl, rfl⟩ := (ih rfl trivial evaluating).of_some
      cases (evaluateOnce_unique answers ok).1
      cases bind.symm.trans bind'
      exact .ended
    | binds other _ evaluating ok bind' =>
      cases named.symm.trans other
      obtain ⟨rfl, rfl⟩ := (ih rfl trivial evaluating).of_some
      cases (evaluateOnce_unique answers ok).1
      cases bind.symm.trans bind'
  | binds named free evaluating answers bind declaring ih ih' =>
    rintro _ rfl - _ _ other
    cases other with
    | cut => exact .cut
    | misnamed other => cases named.symm.trans other
    | defined other bound =>
      cases named.symm.trans other
      cases bound.symm.trans free
    | initializing _ _ other => exact (ih rfl trivial other).before (List.prefix_append ..)
    | fails _ _ _ other => cases (evaluateOnce_unique answers other).1
    | refused other _ evaluating ok bind' =>
      cases named.symm.trans other
      obtain ⟨rfl, rfl⟩ := (ih rfl trivial evaluating).of_some
      cases (evaluateOnce_unique answers ok).1
      cases bind.symm.trans bind'
    | binds other _ evaluating ok bind' declaring =>
      cases named.symm.trans other
      obtain ⟨rfl, rfl⟩ := (ih rfl trivial evaluating).of_some
      cases (evaluateOnce_unique answers ok).1
      cases bind.symm.trans bind'
      exact (ih' rfl trivial declaring).behind _
  | compiling => exact nofun
  | evaluating compiling compiled run ih ih' =>
    rintro _ rfl - _ _ other
    cases other with
    | cut => exact .cut
    | compiling other => exact (ih rfl trivial other).before (List.prefix_append ..)
    | evaluating compiling' compiled' run' =>
      obtain ⟨rfl, rfl⟩ := (ih rfl trivial compiling').of_some
      obtain ⟨rfl, -⟩ := compiled.unique (fun below => below.compile ..) compiled'
      exact (ih' rfl ⟨_, rfl⟩ (run.restopped run')).behind _
  | arrived =>
    rintro _ ⟨⟩ ⟨r, rfl⟩ _ _ (_ | _)
    · exact .cut
    · exact .ended
  | plainStep none step run ih =>
    rintro _ rfl whole _ _ other
    cases other with
    | cut => exact .cut
    | arrived => cases whole.choose_spec
    | plainStep _ step' run' =>
      obtain ⟨rfl, -⟩ := step.unique step'
      exact ih rfl whole run'
    | stepping some | step some => cases none.symm.trans some
  | stepping => exact nofun
  | step some performing step run ih ih' =>
    rintro _ rfl whole _ _ other
    cases other with
    | cut => exact .cut
    | arrived => cases whole.choose_spec
    | plainStep none => cases none.symm.trans some
    | stepping some' performing' =>
      cases some.symm.trans some'
      exact (ih rfl whole_performing performing').before (List.prefix_append ..)
    | step some' performing' step' run' =>
      cases some.symm.trans some'
      obtain ⟨rfl, rfl⟩ := (ih rfl whole_performing performing').of_some
      obtain ⟨rfl, -⟩ := step.unique step'
      exact (ih' rfl whole run').behind _
  | calling replies replied ih =>
    rintro _ rfl - _ _ other
    cases other with
    | cut => exact .cut
    | calling replies' replied' =>
      obtain ⟨rfl, rfl⟩ := replies.unique (fun below => below.reply ..) replies'
      exact (ih rfl (whole_replied _) replied').behind [_]

end Host

end CooperativeLisp

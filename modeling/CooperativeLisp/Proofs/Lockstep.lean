import CooperativeLisp.Proofs.Invocations

/-!
What may be exchanged around frames and expressions. Main statements: frames that are balanced do and
invoke the same on top of different machines, and the expressions at the end of a work list may be
exchanged for others that do the same once those in front of them have been resolved.
-/

namespace CooperativeLisp

variable {σ : Type}

/-! ### Frames on top of different machines -/

/-- Frames and values on top of those of a machine. -/
def Machine.above (m : Machine) (frames : List Frame) (stack trace : List Value) : Machine :=
  ⟨frames ++ m.frames, stack ++ m.stack, trace, m.cap⟩

/-- On so many values, frames in front of others are balanced, unless the first of them is a failure. -/
def Frame.Fit (height : Nat) (frames rest : List Frame) : Prop :=
  (∃ e more, frames = .error e :: more) ∨ Balanced height (frames ++ rest)

theorem Frame.Fit.of_nil {height : Nat} {rest : List Frame} (fit : Fit height [] rest) :
    Balanced height rest := by
  rcases fit with ⟨e, more, failing⟩ | balanced
  · cases failing
  · exact balanced

theorem Stream.Renders.fit {s : Stream} {t : Except Fault Resolved} {height : Nat}
    {frames rest : List Frame} (renders : s.Renders t)
    (balanced : Balanced (height + 1) (frames ++ rest)) :
    Frame.Fit height (s.frames ++ frames) rest := by
  cases t with
  | ok t =>
    right
    rw [renders.2, List.append_assoc]
    exact t.balanced_append balanced
  | error f =>
    obtain ⟨-, e, more, failing, -⟩ := renders
    exact Or.inl ⟨e, more ++ frames, by rw [failing, List.cons_append]⟩

namespace Host

variable {host : Host σ} {w w' w₁ : World σ} {a : Advance} {m below below' : Machine}
variable {r : Except Error Value} {log : CallLog} {work : Work} {operation : Operation} {argc : Nat}
variable {till : Option (World σ)} {origin : Value} {frames rest : List Frame} {stack trace trace' : List Value}

/-- A run comes as far as another one has come, and if that one has ended it ends alike; and it has
invoked what agrees with what that one has. -/
def Mirrors (host : Host σ) (Agrees : CallLog → CallLog → Prop) (a : Advance) (w : World σ)
    (r : Except Error Value) (log : CallLog) (till : Option (World σ)) : Prop :=
  ∃ r' log', host.Invokes (.running a (.done r')) w log' till ∧
    r'.mapError Error.fault = r.mapError Error.fault ∧ Agrees log log'

section Above

variable (enough : argc ≤ stack.length)
include enough

theorem invocation?_above :
    (below.above (.call operation argc origin :: frames) stack trace).invocation? =
      some ⟨operation, (stack.take argc).reverse, origin⟩ := by
  have more : argc ≤ (stack ++ below.stack).length := by
    rw [List.length_append]
    omega
  refine (Machine.invocation?_call more).trans ?_
  rw [List.take_append_of_le_length enough]

/-- A call frame that finds its arguments on top of a machine takes them from there. -/
theorem steps_above :
    host.Steps (below.above (.call operation argc origin :: frames) stack trace) w a w' ↔
      ∃ answer, host.Performs operation (stack.take argc).reverse w answer w' ∧
        a = (below.above frames (stack.drop argc) ((origin :: trace).take below.cap)).answered
          answer := by
  have more : argc ≤ (stack ++ below.stack).length := by
    rw [List.length_append]
    omega
  refine (steps_call more).trans ?_
  rw [List.take_append_of_le_length enough, List.drop_append_of_le_length enough]
  rfl

end Above

theorem answered_value {v : Value} : (below.above frames stack trace).answered (.ok (.value v)) =
    (below.above frames (v :: stack) trace).settle :=
  rfl

theorem answered_stream {s : Stream} : (below.above frames stack trace).answered (.ok (.stream s)) =
    (below.above (s.frames ++ frames) stack trace).settle := by
  rw [Machine.above, Machine.above, List.append_assoc]
  rfl

theorem settle_above (some : frames ≠ []) :
    (below.above frames stack trace).settle = .pending (below.above frames stack trace) :=
  Machine.settle_pending (List.append_ne_nil_of_left_ne_nil some _)

theorem Mirrors.cut {Agrees : CallLog → CallLog → Prop} (nothing : Agrees [] []) :
    host.Mirrors Agrees a w r [] Option.none :=
  ⟨r, [], .cut, rfl, nothing⟩

theorem Mirrors.plainStep {Agrees : CallLog → CallLog → Prop} (none : m.invocation? = Option.none)
    (step : host.Steps m w a w) (mirrors : host.Mirrors Agrees a w r log till) :
    host.Mirrors Agrees (.pending m) w r log till := by
  obtain ⟨r', log', run, same, agrees⟩ := mirrors
  exact ⟨r', log', .plainStep none step run, same, agrees⟩

/-- Runs that are done have nothing left to invoke. -/
theorem Mirrors.done {Agrees : CallLog → CallLog → Prop} (nothing : Agrees [] [])
    {result result' : Except Error Value}
    (run : host.Invokes (.running (.done result) (.done r)) w log till)
    (same : result'.mapError Error.fault = result.mapError Error.fault) :
    host.Mirrors Agrees (.done result') w r log till := by
  cases run with
  | cut => exact .cut nothing
  | arrived => exact ⟨result', [], .arrived, same, nothing⟩

/-- A call frame invokes the same wherever it stands. -/
theorem Mirrors.call {Agrees : CallLog → CallLog → Prop} {answer : Except Error Outcome}
    {later : CallLog}
    (prepend : ∀ {log log' : CallLog} (more), Agrees log log' → Agrees (more ++ log) (more ++ log'))
    (enough : argc ≤ stack.length)
    (performing : host.Invokes (.performing operation (stack.take argc).reverse) w log (some w₁))
    (performs : host.Performs operation (stack.take argc).reverse w answer w₁)
    (mirrors : host.Mirrors Agrees ((below.above frames (stack.drop argc)
      ((origin :: trace).take below.cap)).answered answer) w₁ r later till) :
    host.Mirrors Agrees (.pending (below.above (.call operation argc origin :: frames) stack trace)) w r
      (log ++ later) till := by
  obtain ⟨r', log', run, same, agrees⟩ := mirrors
  exact ⟨r', _, .step (invocation?_above enough) performing
    ((steps_above enough).mpr ⟨answer, performs, rfl⟩) run, same, prepend _ agrees⟩

/-- Balanced frames do the same on top of different machines, if what remains of them in the end does:
what they invoke there, what they make of the world and whether they fail does not depend on what is
below. By induction on the frames that are run. -/
theorem Sound.lockstep (sound : host.Sound) {Agrees : CallLog → CallLog → Prop}
    (nothing : Agrees [] [])
    (prepend : ∀ {log log' : CallLog} (more), Agrees log log' → Agrees (more ++ log) (more ++ log'))
    (last : ∀ {w log} {stack trace trace' : List Value}, Balanced stack.length rest →
      host.Invokes (.running (below.above [] stack trace).settle (.done r)) w log till →
      host.Mirrors Agrees (below'.above [] stack trace').settle w r log till)
    (fit : Frame.Fit stack.length frames rest)
    (invokes : host.Invokes (.running (below.above frames stack trace).settle (.done r)) w log till) :
    host.Mirrors Agrees (below'.above frames stack trace').settle w r log till := by
  -- The induction is on runs that have a frame to take; where none is left it is the turn of `last`.
  let Waiting (a : Advance) (w : World σ) (log : CallLog) : Prop :=
    ∀ {f : Frame} {frames : List Frame} {stack trace trace' : List Value},
      a = .pending (below.above (f :: frames) stack trace) → Frame.Fit stack.length (f :: frames) rest →
      host.Mirrors Agrees (.pending (below'.above (f :: frames) stack trace')) w r log till
  have settled {w : World σ} {log : CallLog} {frames : List Frame} {stack trace trace' : List Value}
      (waiting : Waiting (below.above frames stack trace).settle w log)
      (run : host.Invokes (.running (below.above frames stack trace).settle (.done r)) w log till)
      (fit : Frame.Fit stack.length frames rest) :
      host.Mirrors Agrees (below'.above frames stack trace').settle w r log till := by
    cases frames with
    | nil => exact last fit.of_nil run
    | cons f frames =>
      have some : f :: frames ≠ [] := List.cons_ne_nil f frames
      rw [settle_above some] at waiting ⊢
      exact waiting rfl fit
  refine settled ?_ invokes fit
  refine Invokes.run_induction (P := Waiting) ?_ ?_ ?_ ?_ ?_ invokes
  · rintro rfl a w f frames stack trace trace' - -
    exact .cut nothing
  · rintro w rfl f frames stack trace trace' start
    cases start
  · rintro m a log w none step run ih f frames stack trace trace' ⟨⟩ fit
    cases f with
    | value v =>
      obtain ⟨rfl, -⟩ := steps_value.mp step
      have behind : Frame.Fit (v :: stack).length frames rest := by
        rcases fit with ⟨e, more, failing⟩ | balanced
        · cases failing
        · exact Or.inr balanced
      have later : host.Mirrors Agrees (below'.above frames (v :: stack) trace').settle w r log till :=
        settled ih run behind
      exact .plainStep rfl (steps_value.mpr ⟨rfl, rfl⟩) later
    | error e =>
      obtain ⟨rfl, -⟩ := steps_error.mp step
      exact .plainStep rfl (steps_error.mpr ⟨rfl, rfl⟩) (.done nothing run rfl)
    | call operation argc origin =>
      rcases fit with ⟨e, more, failing⟩ | ⟨enough, -⟩
      · cases failing
      · cases none.symm.trans (invocation?_above enough)
  · rintro rfl m i log w some performing f frames stack trace trace' ⟨⟩ fit
    cases f with
    | value | error => cases some
    | call operation argc origin =>
      rcases fit with ⟨e, more, failing⟩ | ⟨enough, -⟩
      · cases failing
      cases some.symm.trans (invocation?_above enough)
      have same := prepend log nothing
      rw [List.append_nil] at same
      exact ⟨r, log, .stepping (invocation?_above enough) performing, rfl, same⟩
  · rintro m i a log later w w₁ some performing step run ih f frames stack trace trace' ⟨⟩ fit
    cases f with
    | value | error => cases some
    | call operation argc origin =>
      rcases fit with ⟨e, more, failing⟩ | ⟨enough, balanced⟩
      · cases failing
      cases some.symm.trans (invocation?_above enough)
      obtain ⟨answer, performs, rfl⟩ := (steps_above enough).mp step
      rw [← List.length_drop] at balanced
      refine .call prepend enough performing performs ?_
      obtain e | v | s := answer
      · exact .done nothing run rfl
      · rw [answered_value] at ih run ⊢
        exact settled ih run (Or.inr balanced)
      · obtain ⟨t, renders⟩ := sound.performs_renders performs
        rw [answered_stream] at ih run ⊢
        exact settled ih run (renders.fit balanced)

/-- What follows the answer of an operation on an empty machine does not depend on the trace. -/
theorem Sound.retraced (sound : host.Sound) {args : List Value} {answer : Except Error Outcome}
    {cap cap' : BacktraceCap} (performs : host.Performs operation args w answer w₁)
    (run : host.Invokes (.running (Machine.answered ⟨[], [], trace, cap⟩ answer) (.done r)) w₁ log
      till) :
    host.Mirrors (· = ·) (Machine.answered ⟨[], [], trace', cap'⟩ answer) w₁ r log till := by
  let empty (cap : BacktraceCap) : Machine := ⟨[], [], [], cap⟩
  have single {cap : BacktraceCap} {v : Value} {trace : List Value} :
      ((empty cap).above [] [v] trace).settle = .done (.ok v) := Machine.settle_done rfl
  have last {w : World σ} {log : CallLog} {stack trace trace' : List Value}
      (balanced : Balanced stack.length [])
      (run : host.Invokes (.running ((empty cap).above [] stack trace).settle (.done r)) w log till) :
      host.Mirrors (· = ·) ((empty cap').above [] stack trace').settle w r log till := by
    obtain ⟨v, rfl⟩ := List.length_eq_one_iff.mp balanced
    rw [single] at run ⊢
    exact ⟨r, log, run, rfl, rfl⟩
  obtain e | v | s := answer
  · exact .done rfl run rfl
  · have answered {trace : List Value} {cap : BacktraceCap} :
        Machine.answered ⟨[], [], trace, cap⟩ (.ok (.value v)) = .done (.ok v) := Machine.settle_done rfl
    rw [answered] at run ⊢
    exact ⟨r, log, run, rfl, rfl⟩
  · obtain ⟨t, renders⟩ := sound.performs_renders performs
    have fit : Frame.Fit 0 (s.frames ++ []) [] := renders.fit rfl
    have start {trace : List Value} {cap : BacktraceCap} :
        Machine.answered ⟨[], [], trace, cap⟩ (.ok (.stream s)) =
          ((empty cap).above (s.frames ++ []) [] trace).settle :=
      (answered_stream : ((empty cap).above [] [] trace).answered _ = _)
    rw [start] at run ⊢
    exact sound.lockstep rfl (fun _ same => same ▸ rfl) last fit run

/-- A call frame on its arguments alone does the same, whatever the trace. -/
theorem Sound.recalled (sound : host.Sound) {args : List Value} {origin' : Value}
    {cap cap' : BacktraceCap}
    (run : host.Invokes (.running (.pending
      ⟨[.call operation args.length origin], args.reverse ++ [], trace, cap⟩) (.done r)) w log till) :
    host.Mirrors (· = ·) (.pending
      ⟨[.call operation args.length origin'], args.reverse ++ [], trace', cap'⟩) w r log till := by
  obtain ⟨rfl, performing⟩ | ⟨answer, first, more, w₁, rfl, performing, performs, run⟩ :=
    invokes_call.mp run
  · exact ⟨r, log, invokes_call.mpr (Or.inl ⟨rfl, performing⟩), rfl, rfl⟩
  · obtain ⟨r', _, run, same, rfl⟩ := sound.retraced performs run
    refine ⟨r', first ++ more, invokes_call.mpr (Or.inr ?_), same, rfl⟩
    exact ⟨answer, first, more, w₁, rfl, performing, performs, run⟩

/-! ### Expressions at the end of a work list -/

/-- What compiling an expression leaves of a work list: nothing, or other expressions in its place. -/
theorem ExplainsPiece.further {env : Environment} {e : Value} {piece : Except Error Piece}
    (explains : host.ExplainsPiece env e w piece w₁) :
    (∀ pending, Work.further env pending piece = .idle) ∨
      ∃ es, (∀ pending, Work.further env pending piece = .expressions env (es ++ pending)) ∧
        ∀ {pending ts w'}, host.ResolvesAll env (es ++ pending).reverse w₁ (.ok ts) w' →
          ∃ ts, host.ResolvesAll env (e :: pending).reverse w (.ok ts) w' := by
  have one {t : Resolved} (resolves : host.Resolves env e w (.ok t) w₁) {pending ts w'}
      (all : host.ResolvesAll env ([] ++ pending).reverse w₁ (.ok ts) w') :
      ∃ ts, host.ResolvesAll env (e :: pending).reverse w (.ok ts) w' := by
    rw [List.reverse_cons]
    exact ⟨_, .append (.single resolves) all⟩
  have many {fs : List Value} {k : List Resolved → Resolved}
      (instead : ∀ {r w'}, host.ResolvesAll env fs w₁ r w' → host.Resolves env e w (r.map k) w')
      {pending ts w'} (all : host.ResolvesAll env (fs.reverse ++ pending).reverse w₁ (.ok ts) w') :
      ∃ ts, host.ResolvesAll env (e :: pending).reverse w (.ok ts) w' := by
    rw [List.reverse_append, List.reverse_reverse] at all
    obtain ⟨f, ended, -⟩ | ⟨us, ts, -, -, resolves⟩ := all.replace instead
    · cases ended
    · rw [List.reverse_cons]
      exact ⟨_, resolves⟩
  obtain error | v | s | e' | ⟨c, operands⟩ := piece
  · exact Or.inl fun _ => rfl
  · exact Or.inr ⟨[], fun _ => rfl, one explains⟩
  · obtain ⟨r, renders, resolves⟩ := explains
    cases r with
    | error f =>
      refine Or.inl fun pending => ?_
      rw [Work.further_splice, renders.1, if_pos rfl]
    | ok t =>
      refine Or.inr ⟨[], fun pending => ?_, one resolves⟩
      rw [Work.further_splice, renders.1, if_neg Bool.false_ne_true]
      rfl
  · have instead {r w'} (all : host.ResolvesAll env [e'] w₁ r w') :
        host.Resolves env e w (r.map fun ts => ts.headD (.value .nil)) w' := by
      obtain ⟨r', one, rfl⟩ := all.of_single
      have resolved := explains _ _ one
      cases r' <;> exact resolved
    exact Or.inr ⟨[e'], fun _ => rfl, many instead⟩
  · exact Or.inr ⟨operands.reverse, fun _ => rfl, many fun all => explains _ _ all⟩

theorem Sound.explains (sound : host.Sound) {env : Environment} {e : Value}
    {piece : Except Error Piece} (pieces : host.Pieces env e w piece w₁) :
    host.ExplainsPiece env e w piece w₁ := by
  obtain ⟨fuel, run⟩ := pieces
  have faithful := sound.faithful fuel
  exact faithful.compileOne sound (faithful.compile sound) run

/-- In the worlds where some expressions have been resolved, others do what the ones at their side do. -/
def Exchanges (host : Host σ) (env : Environment) (front back back' : List Value) (w : World σ) :
    Prop :=
  ∀ {ts w₁ log till}, host.ResolvesAll env front.reverse w (.ok ts) w₁ →
    host.Invokes (.expressions env back) w₁ log till →
    host.Invokes (.expressions env back') w₁ log till

section Exchange

variable {env : Environment} {front back back' : List Value}

theorem Exchanges.further (sound : host.Sound) {e : Value} {piece : Except Error Piece}
    (exchanges : host.Exchanges env (e :: front) back back' w) (pieces : host.Pieces env e w piece w₁)
    (invokes : host.Invokes (.further env (front ++ back) piece) w₁ log till)
    (shorter : ∀ {front}, host.Exchanges env front back back' w₁ →
      .expressions env (front ++ back) = work →
      host.Invokes (.expressions env (front ++ back')) w₁ log till)
    (left : work = .further env (front ++ back) piece) :
    host.Invokes (.further env (front ++ back') piece) w₁ log till := by
  obtain idle | ⟨es, further, resolves⟩ := (sound.explains pieces).further
  · rw [idle] at invokes ⊢
    exact invokes
  · rw [further, ← List.append_assoc] at left ⊢
    refine shorter (fun all => ?_) left.symm
    obtain ⟨_, all⟩ := resolves all
    exact exchanges all

/-- Expressions at the end of a work list may be exchanged for such others. By induction on the work. -/
theorem Invokes.exchange (sound : host.Sound) (exchanges : host.Exchanges env front back back' w)
    (invokes : host.Invokes (.expressions env (front ++ back)) w log till) :
    host.Invokes (.expressions env (front ++ back')) w log till := by
  generalize start : Work.expressions env (front ++ back) = work at invokes
  induction invokes generalizing front with
  | cut => exact .cut
  | nil =>
    obtain ⟨rfl, both⟩ := Work.expressions.inj start
    obtain ⟨rfl, rfl⟩ := List.append_eq_nil_iff.mp both
    exact exchanges .nil .nil
  | plain inside pieces further ih =>
    obtain ⟨rfl, both⟩ := Work.expressions.inj start
    cases front with
    | nil =>
      obtain rfl : back = _ := both
      exact exchanges .nil (.plain inside pieces further)
    | cons e front =>
      obtain ⟨rfl, rfl⟩ := List.cons.inj both
      exact .plain inside pieces (exchanges.further sound pieces further ih rfl)
  | within inside first _ =>
    obtain ⟨rfl, both⟩ := Work.expressions.inj start
    cases front with
    | nil =>
      obtain rfl : back = _ := both
      exact exchanges .nil (.within inside first)
    | cons e front =>
      obtain ⟨rfl, rfl⟩ := List.cons.inj both
      exact .within inside first
  | nested inside first pieces further _ ih =>
    obtain ⟨rfl, both⟩ := Work.expressions.inj start
    cases front with
    | nil =>
      obtain rfl : back = _ := both
      exact exchanges .nil (.nested inside first pieces further)
    | cons e front =>
      obtain ⟨rfl, rfl⟩ := List.cons.inj both
      exact .nested inside first pieces (exchanges.further sound pieces further ih rfl)
  | _ => cases start

end Exchange

end Host

end CooperativeLisp

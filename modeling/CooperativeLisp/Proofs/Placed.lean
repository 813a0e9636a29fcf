import CooperativeLisp.Proofs.Compiled

/-!
The work list of a compilation. What compiling some of its expressions does to the stream depends
neither on the expressions behind them nor on the frames that are there already.
-/

namespace CooperativeLisp

variable {σ : Type}

namespace Host

variable {host : Host σ} {env : Environment} {e : Value} {es pending : List Value}
variable {s s' : Stream} {w w' w₁ : World σ} {piece : Except Error Piece}

/-- The expressions of a work list are compiled in front of a stream. -/
def Compiles (host : Host σ) (env : Environment) (pending : List Value) (s : Stream)
    (w : World σ) (s' : Stream) (w' : World σ) : Prop :=
  host.Answers (fun g => g.compileOnto g.fuel env pending s) w s' w'

/-- Compiling one expression leads to a piece or fails. -/
def Pieces (host : Host σ) (env : Environment) (e : Value) (w : World σ)
    (piece : Except Error Piece) (w' : World σ) : Prop :=
  host.Answers (fun g => (g.compileOne g.compile env e).run) w piece w'

theorem compiles_nil : host.Compiles env [] s w s' w' ↔ s' = s ∧ w' = w := by
  constructor
  · rintro ⟨fuel, run⟩
    cases fuel with
    | zero => cases run
    | succ fuel => exact Effect.pure_eq_some.mp run
  · intro same
    exact ⟨1, Effect.pure_eq_some.mpr same⟩

theorem compiles_cons : host.Compiles env (e :: pending) s w s' w' ↔
    ∃ piece w₁, host.Pieces env e w piece w₁ ∧
      host.Answers (fun g => g.placed env e pending s piece g.fuel) w₁ s' w' :=
  answers_loop (fun n g => g.compileOnto n env (e :: pending) s)
    (fun n g => (g.compileOne (fun env e => g.compileOnto n env [e] .empty) env e).run)
    (fun piece n g => g.placed env e pending s piece n)
    (fun less below => below.compileOnto less ..)
    (fun less below => below.compileOne (fun env e => below.compileOnto less env [e] .empty) env e)
    (fun piece _ _ _ _ less below => below.placed env e pending s piece less)
    (fun _ => rfl) fun n g => g.compileOnto_succ n env e pending s

/-- Compiling some expressions of a work list puts frames in front of whatever stands behind them
and goes on with the rest, or ends with a failure. -/
def Places (host : Host σ) (env : Environment) (es : List Value) (w : World σ)
    (r : Except Fault (List Frame)) (w' : World σ) : Prop :=
  ∀ pending s, match r with
    | .ok frames => ∀ s' w₁, host.Compiles env pending ⟨frames ++ s.frames, s.failed⟩ w' s' w₁ →
      host.Compiles env (es ++ pending) s w s' w₁
    | .error f => ∃ e rest, host.Compiles env (es ++ pending) s w ⟨.error e :: rest, true⟩ w' ∧
      e.fault = f

theorem Pieces.of_run
    (run : ∀ g : Engine σ, g.host = host → (g.compileOne g.compile env e).run w = some (piece, w')) :
    host.Pieces env e w piece w' :=
  ⟨0, run _ (Engine.withFuel_host host 0)⟩

namespace Places

variable {r : Except Fault (List Frame)} {xs ys : List Value} {frames : List Frame} {f : Fault}

theorem nil : host.Places env [] w (.ok []) w :=
  fun _ _ _ _ compiles => compiles

theorem append (first : host.Places env xs w (.ok frames) w₁) (rest : host.Places env ys w₁ r w') :
    host.Places env (xs ++ ys) w (r.map (· ++ frames)) w' := by
  intro pending s
  have first := first (ys ++ pending) s
  have rest := rest pending ⟨frames ++ s.frames, s.failed⟩
  cases r with
  | ok more =>
    intro s' w₂ compiles
    rw [List.append_assoc] at compiles ⊢
    exact first _ _ (rest _ _ compiles)
  | error f =>
    obtain ⟨e, tail, compiles, cause⟩ := rest
    refine ⟨e, tail, ?_, cause⟩
    rw [List.append_assoc]
    exact first _ _ compiles

theorem append_fails (fails : host.Places env xs w (.error f) w') :
    host.Places env (xs ++ ys) w (.error f) w' := by
  intro pending s
  obtain ⟨e, rest, compiles, cause⟩ := fails (ys ++ pending) s
  rw [← List.append_assoc] at compiles
  exact ⟨e, rest, compiles, cause⟩

theorem of_value {v : Value} (pieces : host.Pieces env e w (.ok (.value v)) w') :
    host.Places env [e] w (.ok [.value v]) w' :=
  fun _ _ _ _ compiles => compiles_cons.mpr ⟨_, _, pieces, compiles⟩

theorem of_splice {more : Stream} {r : Except Fault Resolved}
    (pieces : host.Pieces env e w (.ok (.splice more)) w') (renders : more.Renders r) :
    host.Places env [e] w (r.map Resolved.frames) w' := by
  intro pending s
  cases r with
  | ok t =>
    obtain ⟨whole, frames⟩ := renders
    intro s' w₁ compiles
    refine compiles_cons.mpr ⟨_, _, pieces, ?_⟩
    simp only [Engine.placed, whole, Stream.merge, frames, Bool.or_false, Bool.false_eq_true,
      if_false]
    exact compiles
  | error f =>
    obtain ⟨failed, e', rest, frames, cause⟩ := renders
    refine ⟨e', rest ++ s.frames, compiles_cons.mpr ⟨_, _, pieces, ?_⟩, cause⟩
    simp only [Engine.placed, failed, if_true]
    refine answers_pure.mpr ⟨?_, rfl⟩
    rw [Stream.merge, failed, frames, Bool.or_true, List.cons_append]

theorem of_instead {e' : Value} (pieces : host.Pieces env e w (.ok (.instead e')) w₁)
    (places : host.Places env [e'] w₁ r w') : host.Places env [e] w r w' := by
  intro pending s
  have places := places pending s
  cases r with
  | ok frames => exact fun s' w₂ compiles => compiles_cons.mpr ⟨_, _, pieces, places s' w₂ compiles⟩
  | error f =>
    obtain ⟨e, rest, compiles, cause⟩ := places
    exact ⟨e, rest, compiles_cons.mpr ⟨_, _, pieces, compiles⟩, cause⟩

theorem of_application {c : Callable} {operands : List Value}
    (pieces : host.Pieces env e w (.ok (.application c operands)) w₁)
    (places : host.Places env operands.reverse w₁ r w') :
    host.Places env [e] w (r.map (· ++ [.call (.callable c) operands.length e])) w' := by
  intro pending s
  have places := places pending (s.pushCall (.callable c) operands.length e)
  cases r with
  | ok frames =>
    intro s' w₂ compiles
    refine compiles_cons.mpr ⟨_, _, pieces, places s' w₂ ?_⟩
    rwa [List.append_assoc] at compiles
  | error f =>
    obtain ⟨e, rest, compiles, cause⟩ := places
    exact ⟨e, rest, compiles_cons.mpr ⟨_, _, pieces, compiles⟩, cause⟩

theorem of_error {error : Error} (pieces : host.Pieces env e w (.error error) w') :
    host.Places env [e] w (.error error.fault) w' :=
  fun _ s => ⟨error.withOrigin e, s.frames,
    compiles_cons.mpr ⟨_, _, pieces, answers_pure.mpr ⟨rfl, rfl⟩⟩, rfl⟩

theorem of_fault {f : Fault} (pieces : host.Pieces env e w (.error (.ofFault f)) w') :
    host.Places env [e] w (.error f) w' :=
  of_error pieces

/-- Alone on the work list, an expression is compiled to the stream of its tree. -/
theorem compile {r : Except Fault Resolved}
    (places : host.Places env [e] w (r.map Resolved.frames) w') :
    ∃ s, host.Answers (·.compile env e) w s w' ∧ s.Renders r := by
  have places := places [] .empty
  cases r with
  | ok t =>
    refine ⟨⟨t.frames ++ [], false⟩, places _ _ (compiles_nil.mpr ⟨rfl, rfl⟩), rfl, ?_⟩
    exact List.append_nil _
  | error f =>
    obtain ⟨e, rest, compiles, cause⟩ := places
    exact ⟨_, compiles, rfl, e, rest, rfl, cause⟩

end Places

end Host

end CooperativeLisp

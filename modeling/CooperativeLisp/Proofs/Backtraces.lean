import CooperativeLisp.Proofs.Splice
import CooperativeLisp.Proofs.TwinRuns

/-!
What a backtrace says of a run that fails. It is the history of the failure, cut at the bound: first
the entries that the failure was raised with, then the origins of all invocations of the run, most
recent first. A higher bound only makes it longer, although it is cut at each invocation, when a
failure is raised and once more around every declaration whose expression fails.
-/

namespace CooperativeLisp

open List (Forall₂)

variable {σ : Type} {host : Host σ} {w w' : World σ}

/-- A run whose frames are used up without exactly one value fails; no frame raises that failure. -/
inductive Error.Unfinished : Error → Prop
  | noValue : Unfinished (.ofFault (.internal .noValue))
  | surplus {height : Nat} : 1 < height → Unfinished (.ofFault (.internal (.surplus height)))

namespace Host

/-- The failure that the next frame raises, as it is before the run's history is added to it: that
of an error frame, that of the operation of a call frame, or that of missing arguments. -/
inductive Raises (host : Host σ) (m : Machine) (w : World σ) : Error → World σ → Prop
  | frame {e : Error} {rest : List Frame} : m.frames = .error e :: rest → Raises host m w e w
  | operation {i : Invocation} {e : Error} {w' : World σ} : m.invocation? = some i →
      host.Performs i.operation i.args w (.error e) w' → Raises host m w e w'
  | underflow {operation : Operation} {argc : Nat} {origin : Value} {rest : List Frame} :
      m.frames = .call operation argc origin :: rest → m.stack.length < argc →
      Raises host m w (.ofFault (.internal (.underflow argc m.stack.length))) w

end Host

/-- A failure with its history: the entries it was raised with and then the origins of invocations,
the most recent first, cut at a bound. -/
structure Error.Records (e raised : Error) (calls : List Invocation) (cap : BacktraceCap) :
    Prop where
  fault : e.fault = raised.fault
  backtrace : e.backtrace = (raised.backtrace ++ (calls.map (·.origin)).reverse).take cap

theorem Machine.finish_error {m : Machine} {e : Error} (failed : m.finish = .error e) :
    e.Unfinished := by
  obtain ⟨frames, stack, trace, cap⟩ := m
  match stack, failed with
  | [], failed =>
    cases failed
    exact .noValue
  | [v], failed => cases failed
  | _ :: _ :: _, failed =>
    cases failed
    exact .surplus (by simp)

/-- A run ends in a failure of its own only when its frames are used up. -/
theorem Machine.settle_error {m : Machine} {e : Error} (failed : m.settle = .done (.error e)) :
    e.Unfinished := by
  unfold Machine.settle at failed
  split at failed
  · exact finish_error (Advance.done.inj failed)
  · cases failed

namespace Host

variable {n : Nat} {calls : List Invocation} {m : Machine} {e : Error}

/-- A frame that ends a run in a failure raises it, unless it was the last frame and the failure is
that the run has not come to one value. -/
theorem Steps.raises (step : host.Steps m w (.done (.error e)) w') :
    e.Unfinished ∨ ∃ raised, host.Raises m w raised w' ∧ e.fault = raised.fault ∧
      e.backtrace = (raised.backtrace ++
        (m.invocation?.toList.map (·.origin) ++ m.trace)).take m.cap := by
  obtain ⟨frames, stack, trace, cap⟩ := m
  cases frames with
  | nil =>
    obtain ⟨ended, -⟩ := steps_nil.mp step
    exact Or.inl (Machine.finish_error (Advance.done.inj ended).symm)
  | cons f frames =>
    cases f with
    | value v => exact Or.inl (Machine.settle_error (steps_value.mp step).1.symm)
    | error raised =>
      obtain ⟨ended, rfl⟩ := steps_error.mp step
      cases ended
      exact Or.inr ⟨raised, .frame rfl, rfl, rfl⟩
    | call operation argc origin =>
      by_cases enough : argc ≤ stack.length
      · obtain ⟨answer, performs, ended⟩ := (steps_call enough).mp step
        cases answer with
        | ok outcome => exact Or.inl (Machine.settle_error ended.symm)
        | error raised =>
          cases ended
          refine Or.inr ⟨raised, .operation (Machine.invocation?_call enough) performs, rfl, ?_⟩
          rw [Machine.invocation?_call enough]
          exact take_append_agree rfl (by simp [List.take_take])
      · have lacking := Nat.lt_of_not_le enough
        obtain ⟨ended, rfl⟩ := (steps_underflow lacking).mp step
        cases ended
        refine Or.inr ⟨_, .underflow rfl lacking, rfl, ?_⟩
        have few : (stack.take argc).length < argc := by
          rw [List.length_take]
          omega
        simp only [Machine.invocation?, few, if_true, Option.toList_none, List.map_nil, List.nil_append]
        rfl

/-- The failure that a run ends with records its history, or the run has not come to one value. -/
theorem Reaches.records {s : Stream} {cap : BacktraceCap}
    (reach : host.Reaches n calls (.pending (.start s cap)) w (.done (.error e)) w') :
    e.Unfinished ∨ ∃ k first m w₁ raised,
      host.Reaches k first (.pending (.start s cap)) w (.pending m) w₁ ∧
      calls = first ++ m.invocation?.toList ∧ host.Raises m w₁ raised w' ∧
      e.Records raised calls (max cap 1) := by
  obtain _ | n := n
  · cases reach
  obtain ⟨a, w₁, first, rest, before, behind, rfl⟩ := reach.split (Nat.le_succ n)
  rw [Nat.add_sub_cancel_left] at behind
  cases behind with
  | @step _ more m a _ _ w₂ _ step stopped =>
    cases stopped
    refine step.raises.imp_right ?_
    rintro ⟨raised, raises, fault, backtrace⟩
    obtain ⟨capped, history⟩ := before.trace
    have origins : ((first ++ (m.invocation?.toList ++ [])).map Invocation.origin).reverse =
        m.invocation?.toList.map Invocation.origin ++ first.reverse.map Invocation.origin := by
      cases m.invocation? <;> simp
    refine ⟨n, first, m, w₁, raised, before, by rw [List.append_nil], raises, fault, ?_⟩
    rw [backtrace, origins, capped]
    rw [Machine.start, List.append_nil] at history
    exact take_append_congr _ (take_append_congr _ history)

/-- No backtrace is longer than its bound. -/
theorem evaluateOnce_bounded {env : Environment} {v : Value} {cap : BacktraceCap}
    (answers : host.Answers (·.evaluateOnce env v cap) w (.error e) w') :
    e.backtrace.length ≤ max cap 1 := by
  obtain ⟨fuel, run⟩ := answers
  obtain ⟨s, w₁, -, executed⟩ := Effect.bind_eq_some.mp run
  obtain ⟨n, calls, reach⟩ := execute_iff_ends.mp ⟨fuel, executed⟩
  rcases reach.records with unfinished | ⟨_, _, _, _, raised, -, -, -, records⟩
  · cases unfinished <;> exact Nat.zero_le _
  · rw [records.backtrace, List.length_take]
    exact Nat.min_le_left ..

/-- Each result of expressions that are evaluated one after the other is that of an evaluation. -/
theorem mem_of_evaluateAll {i : Interpreter} {es : List Value} {rs : List (Except Error Value)}
    (answers : host.Answers (fun g => es.mapM (i.evaluate g)) w rs w') :
    ∀ r ∈ rs, ∃ v w₁ w₂,
      host.Answers (·.evaluateOnce i.root v i.config.maxBacktrace) w₁ r w₂ := by
  obtain ⟨fuel, run⟩ := answers
  induction es generalizing w rs with
  | nil =>
    obtain ⟨rfl, -⟩ := Effect.pure_eq_some.mp run
    exact nofun
  | cons e es ih =>
    have run : ((e :: es).mapM (i.evaluate (.withFuel host fuel))) w = some (rs, w') := run
    rw [List.mapM_cons] at run
    obtain ⟨r, w₁, first, run⟩ := Effect.bind_eq_some.mp run
    obtain ⟨more, rest, rfl⟩ := Effect.map_eq_some.mp run
    exact List.forall_mem_cons.mpr ⟨⟨e, w, w₁, fuel, first⟩, ih rest⟩

/-- No result of an interpreter has more entries than it keeps. -/
theorem evaluateAll_bounded {i : Interpreter} {es : List Value} {rs : List (Except Error Value)}
    (answers : host.Answers (fun g => es.mapM (i.evaluate g)) w rs w') (e : Error)
    (member : .error e ∈ rs) : e.backtrace.length ≤ max i.config.maxBacktrace 1 := by
  obtain ⟨_, _, _, answer⟩ := mem_of_evaluateAll answers _ member
  exact evaluateOnce_bounded answer

/-- An expression that is evaluated alone. -/
theorem Answers.alone {i : Interpreter} {v : Value} {r : Except Error Value}
    (answers : host.Answers (fun g => i.evaluate g v) w r w') :
    host.Answers (fun g => [v].mapM (i.evaluate g)) w [r] w' := by
  obtain ⟨fuel, run⟩ := answers
  refine ⟨fuel, ?_⟩
  show ([v].mapM (i.evaluate (.withFuel host fuel))) w = some ([r], w')
  rw [List.mapM_cons, List.mapM_nil]
  exact Effect.map_eq_some.mpr ⟨r, run, rfl⟩

end Host

/-- The ends of one evaluation under a lower and under a higher bound on backtraces. -/
inductive Lengthened (cap : BacktraceCap) : Except Error Value → Except Error Value → Prop
  | ok {v v' : Value} : v.display = v'.display → Lengthened cap (.ok v) (.ok v')
  | error {e e' : Error} : e.fault.Alike e'.fault →
      e.backtrace = e'.backtrace.take (max cap 1) → Lengthened cap (.error e) (.error e')

namespace Twinning

/-- Two interpreters of the standard library in one world with different bounds on backtraces, the
first of which keeps no more entries than so many. -/
def bounds (root : ScopeId) (entries : Nat) : Twinning where
  root := root
  extras := ∅
  caps cap cap' := min (max cap 1) entries = min (max cap' 1) entries
  entries := entries
  caps_refl _ := rfl
  caps_agree := id
  self_free := Std.TreeMap.not_mem_emptyc

/-- Twins under a lower and a higher bound, as the lower bound cuts both. -/
theorem lengthened {root : ScopeId} {cap : BacktraceCap} {rs rs' : List (Except Error Value)}
    (twins : Forall₂ ((bounds root (max cap 1)).Ends (Value.Twin (bounds root (max cap 1)))) rs rs')
    (bounded : ∀ e, .error e ∈ rs → e.backtrace.length ≤ max cap 1) :
    Forall₂ (Lengthened cap) rs rs' := by
  induction twins with
  | nil => exact .nil
  | @cons r r' rs rs' first _ ih =>
    refine .cons ?_ (ih fun e member => bounded e (.tail _ member))
    cases first with
    | ok twin => exact .ok twin.display
    | @error e e' twin =>
      have whole := List.take_of_length_le (bounded e List.mem_cons_self)
      exact .error twin.fault.alike (whole.symm.trans twin.backtrace)

end Twinning

/-- A backtrace is the history of its failure, cut at the bound, and a higher bound makes it longer and
nothing else. Only the failure of a run that does not come to one value has no history. -/
theorem Host.backtrace_records_history (host : Host σ) :
    (∀ {n calls s cap w w'} {e : Error},
      host.Reaches n calls (.pending (.start s cap)) w (.done (.error e)) w' →
      e.Unfinished ∨ ∃ k first m w₁ raised,
        host.Reaches k first (.pending (.start s cap)) w (.pending m) w₁ ∧
        calls = first ++ m.invocation?.toList ∧ host.Raises m w₁ raised w' ∧
        e.Records raised calls (max cap 1)) ∧
    ∀ (w : World σ) (config : Config) (cap : BacktraceCap) (es : List Value),
      config.maxBacktrace ≤ cap → (∀ e ∈ es, e.Standard) →
      let lower := Interpreter.build w Library.table ∅ config
      let higher := Interpreter.build w Library.table ∅ { config with maxBacktrace := cap }
      (∀ {rs W}, host.Answers (fun g => es.mapM (lower.1.evaluate g)) lower.2 rs W →
        ∃ rs' W', host.Answers (fun g => es.mapM (higher.1.evaluate g)) higher.2 rs' W' ∧
          Forall₂ (Lengthened config.maxBacktrace) rs rs') ∧
      ∀ {rs' W'}, host.Answers (fun g => es.mapM (higher.1.evaluate g)) higher.2 rs' W' →
        ∃ rs W, host.Answers (fun g => es.mapM (lower.1.evaluate g)) lower.2 rs W ∧
          Forall₂ (Lengthened config.maxBacktrace) rs rs' := by
  refine ⟨Reaches.records, fun w config cap es less standard => ?_⟩
  let τ := Twinning.bounds w.scopes.tables.size (max config.maxBacktrace 1)
  let config' : Config := { config with maxBacktrace := cap }
  have caps : τ.caps config.maxBacktrace config'.maxBacktrace := by
    have below : max config.maxBacktrace 1 ≤ max cap 1 := max_le_max less (Nat.le_refl 1)
    exact (Nat.min_self _).trans (Nat.min_eq_right below).symm
  have plain : ∀ e ∈ es, τ.Plain e := fun e member =>
    .of_standard (standard e member) fun name hidden => absurd hidden Std.TreeMap.not_mem_emptyc
  have worlds : τ.Worlds (Interpreter.build w Library.table ∅ config).2
      (Interpreter.build w Library.table ∅ config').2 :=
    .build w caps rfl fun name hidden => absurd hidden Std.TreeMap.not_mem_emptyc
  obtain ⟨forth, back⟩ := Twinning.evaluateAll_iff host worlds caps plain
  constructor
  · intro rs W answers
    obtain ⟨rs', W', answers', -, twins⟩ := forth answers
    exact ⟨rs', W', answers', Twinning.lengthened twins (evaluateAll_bounded answers)⟩
  · intro rs' W' answers
    obtain ⟨rs, W, answers', -, twins⟩ := back answers
    exact ⟨rs, W, answers', Twinning.lengthened twins (evaluateAll_bounded answers')⟩

/-! ### Failures of three runs -/

namespace Extension

/-- The world of a host that has not written to its log, in which nothing has been opened. -/
def bare : World Log := ⟨{}, 0, []⟩

/-- Two invocations, the second of which fails as its argument is no list. -/
def twoCalls : Stream :=
  ⟨[.value .nil, .call (.callable (.native (.primitive .not))) 1 (.symbol "first"),
    .call (.callable (.native (.primitive .car))) 1 (.symbol "second")], false⟩

/-- A declaration whose expression is an unbound name. -/
def undeclarable : Value :=
  .list [.symbol "export", .list [.list [.symbol "a", .symbol "missing"]]]

/-- Interpreters of the standard library that keep one entry of a backtrace, and two. -/
def narrow : Interpreter × World Log :=
  Interpreter.build bare Library.table ∅ { maxBacktrace := 1 }

def wide : Interpreter × World Log :=
  Interpreter.build bare Library.table ∅ { maxBacktrace := 2 }

theorem undeclarable_standard : undeclarable.Standard :=
  .list (.cons (.symbol _) (.cons (.list (.cons (.list (.cons (.symbol _) (.cons (.symbol _) .nil)))
    .nil)) .nil))

/-- An application of the native that answers with its two arguments. -/
def spreadForm : Value :=
  .list [.symbol "spread", .truth, .nil]

end Extension

open Extension in
/-- A bound of one keeps the second of two invocations, and the name that a declaration does not find
and not the declaration. -/
theorem Host.backtrace_records_history_cut :
    (∃ calls e, Extension.host.Reaches 3 calls (.pending (.start twoCalls 1)) bare
        (.done (.error e)) bare ∧ e.backtrace = [.symbol "second"] ∧
      (e.Unfinished ∨ ∃ k first m w₁ raised,
        Extension.host.Reaches k first (.pending (.start twoCalls 1)) bare (.pending m) w₁ ∧
        calls = first ++ m.invocation?.toList ∧ Extension.host.Raises m w₁ raised bare ∧
        e.Records raised calls (max 1 1))) ∧
    (1 ≤ 2 ∧ undeclarable.Standard ∧ ∃ rs' W',
      Extension.host.Answers (fun g => [undeclarable].mapM (wide.1.evaluate g)) wide.2 rs' W' ∧
      Forall₂ (Lengthened 1) [.error ⟨.unbound "missing", [.symbol "missing"]⟩] rs') := by
  have reach : Extension.host.Reaches 3 _ (.pending (.start twoCalls 1)) bare
      (.done (.error ⟨.type (.expectedList .truth), [.symbol "second"]⟩)) bare :=
    .step ⟨1, rfl⟩ (.step ⟨1, rfl⟩ (.step ⟨1, rfl⟩ .refl))
  have evaluated : Extension.host.Answers (fun g => narrow.1.evaluate g undeclarable) narrow.2
      (.error ⟨.unbound "missing", [.symbol "missing"]⟩) narrow.2 := ⟨8, rfl⟩
  have standard : ∀ e ∈ [undeclarable], e.Standard :=
    List.forall_mem_singleton.mpr undeclarable_standard
  have lengthened := (Host.backtrace_records_history Extension.host).2 bare { maxBacktrace := 1 } 2
    [undeclarable] (Nat.le_succ 1) standard
  exact ⟨⟨_, _, reach, rfl, (Host.backtrace_records_history _).1 reach⟩, Nat.le_succ 1,
    undeclarable_standard, lengthened.1 evaluated.alone⟩

open Extension in
/-- A run that ends with two values fails without its history, although it has made an invocation, and
a call frame without its argument leaves no origin in the failure that it raises. -/
theorem Host.surplus_has_no_history :
    (∃ calls e, Extension.host.Reaches 5 calls (.pending (.start
        ⟨[.value .truth, .value .nil, .call (.callable spread) 2 spreadForm], false⟩ 10)) bare
        (.done (.error e)) bare ∧ calls.map (·.origin) = [spreadForm] ∧
      ∀ own : List Value, e.backtrace ≠ (own ++ (calls.map (·.origin)).reverse).take 10) ∧
    ∃ e, Extension.host.Reaches 1 [] (.pending (.start
        ⟨[.call (.callable spread) 1 spreadForm], false⟩ 10)) bare (.done (.error e)) bare ∧
      ∀ own : List Value, e.backtrace ≠ (own ++ [spreadForm]).take 10 := by
  have longer : ∀ own : List Value, [] ≠ (own ++ [spreadForm]).take 10 := by
    intro own same
    have none := (List.take_eq_nil_iff.mp same.symm).resolve_left (by omega)
    exact List.cons_ne_nil _ _ (List.append_eq_nil_iff.mp none).2
  have surplus : Extension.host.Reaches 5 _ (.pending (.start
      ⟨[.value .truth, .value .nil, .call (.callable spread) 2 spreadForm], false⟩ 10)) bare
      (.done (.error (.ofFault (.internal (.surplus 2))))) bare :=
    .step ⟨1, rfl⟩ (.step ⟨1, rfl⟩ (.step ⟨1, rfl⟩ (.step ⟨1, rfl⟩ (.step ⟨1, rfl⟩ .refl))))
  have lacking : Extension.host.Reaches 1 _ (.pending (.start
      ⟨[.call (.callable spread) 1 spreadForm], false⟩ 10)) bare
      (.done (.error (.ofFault (.internal (.underflow 1 0))))) bare :=
    .step ⟨1, rfl⟩ .refl
  exact ⟨⟨_, _, surplus, rfl, longer⟩, _, lacking, longer⟩

end CooperativeLisp

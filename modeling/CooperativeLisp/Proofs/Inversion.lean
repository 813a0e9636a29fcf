import CooperativeLisp.Proofs.Tail

/-!
What a derivation of the direct evaluator says of its parts. Main statement: an application of a
function that is written in the place of the operator resolves its operands, evaluates them and then
the body of the function in a scope inside of the environment, and it does nothing else.
-/

namespace CooperativeLisp

variable {σ : Type}

/-- Opens a scope with some bindings inside an environment. -/
def World.openChild (w : World σ) (env : Environment) (table : Table) : Environment × World σ :=
  let (child, scopes) := w.scopes.openChild env table
  (child, { w with scopes })

/-- The world in which one more identity of a closure is used up. -/
def World.identified (w : World σ) : World σ :=
  { w with closures := w.closures + 1 }

/-- What an invocation with these parameters binds, apart from the running closure. -/
def LambdaList.entries (l : LambdaList) (args : List Value) : List (String × Value) :=
  l.params.zip (args ++ List.replicate (l.params.length - args.length) .nil) ++
    match l.rest.name? with
    | some name => [(name, .list (args.drop l.params.length))]
    | none => []

/-- The first entry of a table is hidden without a trace by one of the same name behind it. -/
theorem Table.ofEntries_hidden (name : String) (u v : Value) (entries : List (String × Value)) :
    ofEntries ((name, u) :: (name, v) :: entries) = ofEntries ((name, v) :: entries) := by
  have replaced : (((∅ : Table).insert name u).insert name v) = (∅ : Table).insert name v := by
    simp [Std.TreeMap.insert, Std.DTreeMap.insert, EmptyCollection.emptyCollection,
      Std.TreeMap.empty, Std.DTreeMap.empty, Std.DTreeMap.Internal.Impl.insert,
      Std.DTreeMap.Internal.Impl.empty]
  simp only [ofEntries, List.foldl_cons, replaced]

theorem Closure.arguments_eq (c : Closure) (args : List Value) :
    c.arguments args = (Symbol.selfName, .callable (.closure c)) ::
      LambdaList.entries ⟨c.params, c.rest⟩ args :=
  rfl

/-- A function that takes the running closure as its first parameter does not see itself. -/
theorem Closure.arguments_table {c : Closure} {names : List String} (args : List Value)
    (first : c.params = Symbol.selfName :: names) :
    Table.ofEntries (c.arguments args) =
      Table.ofEntries (LambdaList.entries ⟨c.params, c.rest⟩ args) := by
  rw [arguments_eq, LambdaList.entries, first]
  cases args with
  | nil => exact Table.ofEntries_hidden ..
  | cons own args => exact Table.ofEntries_hidden ..

/-- What a success in two steps says of the first one. -/
theorem Error.of_bind_ok {α β : Type} {x : Except Error α} {k : α → Except Error β} {b : β}
    (ended : x >>= k = .ok b) : ∃ a, x = .ok a ∧ k a = .ok b := by
  cases x with
  | error e => cases ended
  | ok a => exact ⟨a, rfl, ended⟩

namespace LambdaList

/-- The parameters that have been seen are the first ones. -/
theorem readAfter_seen {seen : List String} {vs : List Value} {l : LambdaList}
    (read : readAfter seen vs = .ok l) : seen.reverse <+: l.params := by
  induction vs generalizing seen with
  | nil =>
    cases read
    exact List.prefix_rfl
  | cons v more ih =>
    unfold readAfter at read
    obtain ⟨name, -, read⟩ := Error.of_bind_ok read
    split at read
    · obtain ⟨rest, -, read⟩ := Error.of_bind_ok read
      cases read
      exact List.prefix_rfl
    dsimp only at read
    split at read
    · cases read
    split at read
    · cases read
    · have longer := ih read
      rw [List.reverse_cons] at longer
      exact (List.prefix_append _ _).trans longer

/-- A name that may stand in the place of a parameter is the next one. -/
theorem readAfter_name {seen : List String} {name : String} {more : List Value}
    (free : Symbol.isReserved name = false) (fresh : name ∉ seen) :
    readAfter seen (.symbol name :: more) = readAfter (name :: seen) more := by
  have notRest : (name == Symbol.restMarker) = false := by
    rw [Symbol.isReserved, Bool.or_eq_false_iff] at free
    exact free.2
  have unseen : seen.contains name = false := by simpa using fresh
  simp only [readAfter, nameOf, bind, Except.bind, notRest, free, unseen, Bool.false_eq_true,
    if_false, pure, Except.pure]

/-- The running closure is the first parameter. -/
theorem read_self {vs : List Value} :
    read (.list (Library.self :: vs)) = readAfter [Symbol.selfName] vs :=
  readAfter_name rfl List.not_mem_nil

/-- Names that may stand in the places of parameters are the next ones. -/
theorem readAfter_names {seen names : List String} {more : List Value} (distinct : names.Nodup)
    (free : ∀ name ∈ names, Symbol.isReserved name = false) (fresh : ∀ name ∈ names, name ∉ seen) :
    readAfter seen (names.map Value.symbol ++ more) = readAfter (names.reverse ++ seen) more := by
  induction names generalizing seen with
  | nil => rfl
  | cons name names ih =>
    obtain ⟨once, distinct⟩ := List.nodup_cons.mp distinct
    have later : ∀ other ∈ names, other ∉ name :: seen := by
      intro other member twice
      rcases List.mem_cons.mp twice with rfl | before
      · exact once member
      · exact fresh other (List.mem_cons_of_mem _ member) before
    rw [List.map_cons, List.cons_append,
      readAfter_name (free name List.mem_cons_self) (fresh name List.mem_cons_self),
      ih distinct (fun other member => free other (List.mem_cons_of_mem _ member)) later,
      List.reverse_cons, List.append_assoc, List.singleton_append]

end LambdaList

namespace Host

variable {host : Host σ} {env : Environment} {operator e : Value} {operands es : List Value}
variable {c : Callable} {x : Expander} {w w' w₁ : World σ}

/-! ### Resolving -/

/-- What an application is resolved to, for what its operator stands for. -/
def Becomes (host : Host σ) (env : Environment) (operator : Value) (operands : List Value)
    (w : World σ) (r : Except Fault Resolved) (w' : World σ) : Callable → Prop
  | .expander x =>
    (∃ e w₁, host.expansion x operands env w = (.ok e, w₁) ∧ host.Resolves env e w₁ r w') ∨
      ∃ e, host.expansion x operands env w = (.error e, w') ∧ r = .error e.fault
  | .form f =>
    (f.arity.Admits operands.length ∧ host.Applies f operands env w r w') ∨
      ¬ f.arity.Admits operands.length ∧ r = .error (.arity f.arity.bound operands.length) ∧ w' = w
  | c => ∃ all, host.ResolvesAll env operands w all w' ∧
      r = all.map fun ts => .application (.callable c) ts (Library.apply operator operands)

theorem resolves_operator {r : Except Fault Resolved}
    (resolved : w.scopes.operator env operator = .ok c) :
    host.Resolves env (Library.apply operator operands) w r w' ↔
      host.Becomes env operator operands w r w' c := by
  constructor
  · intro resolves
    cases resolves with
    | atom plain => exact plain.elim
    | computed computes =>
      obtain ⟨first, rest, rfl⟩ := computes
      cases resolved
    | noOperator _ unresolved => cases resolved.symm.trans unresolved
    | expands other expansion resolves =>
      cases resolved.symm.trans other
      exact Or.inl ⟨_, _, expansion, resolves⟩
    | expandsNot other refused =>
      cases resolved.symm.trans other
      exact Or.inr ⟨_, refused, rfl⟩
    | form other admitted applies =>
      cases resolved.symm.trans other
      exact Or.inl ⟨admitted, applies⟩
    | formArity other refused =>
      cases resolved.symm.trans other
      exact Or.inr ⟨refused, rfl, rfl⟩
    | application other function all =>
      cases resolved.symm.trans other
      cases c with
      | native | closure => exact ⟨_, all, rfl⟩
      | form | expander => exact function.elim
  · intro becomes
    cases c with
    | native | closure =>
      obtain ⟨all, resolves, rfl⟩ := becomes
      exact .application resolved trivial resolves
    | form f =>
      rcases becomes with ⟨admitted, applies⟩ | ⟨refused, rfl, rfl⟩
      · exact .form resolved admitted applies
      · exact .formArity resolved refused
    | expander x =>
      rcases becomes with ⟨e, w₁, expansion, resolves⟩ | ⟨e, refused, rfl⟩
      · exact .expands resolved expansion resolves
      · exact .expandsNot resolved refused

/-- An application of an expander is what it expands to. -/
theorem resolves_expansion {r : Except Fault Resolved}
    (resolved : w.scopes.operator env operator = .ok (.expander x))
    (expansion : host.expansion x operands env w = (.ok e, w₁)) :
    host.Resolves env (Library.apply operator operands) w r w' ↔ host.Resolves env e w₁ r w' := by
  rw [resolves_operator resolved]
  constructor
  · rintro (⟨e', w₂, other, resolves⟩ | ⟨error, refused, -⟩)
    · cases expansion.symm.trans other
      exact resolves
    · cases expansion.symm.trans refused
  · exact fun resolves => Or.inl ⟨e, w₁, expansion, resolves⟩

/-- A native or a closure waits for its operands. -/
theorem resolves_function {r : Except Fault Resolved}
    (resolved : w.scopes.operator env operator = .ok c) (function : c.IsFunction) :
    host.Resolves env (Library.apply operator operands) w r w' ↔
      ∃ all, host.ResolvesAll env operands w all w' ∧
        r = all.map fun ts => .application (.callable c) ts (Library.apply operator operands) := by
  rw [resolves_operator resolved]
  cases c with
  | native | closure => exact Iff.rfl
  | form | expander => exact function.elim

/-- A form is applied, if it accepts so many operands. -/
theorem resolves_form {f : Form} {r : Except Fault Resolved}
    (resolved : w.scopes.operator env operator = .ok (.form f))
    (admitted : f.arity.Admits operands.length) :
    host.Resolves env (Library.apply operator operands) w r w' ↔
      host.Applies f operands env w r w' := by
  rw [resolves_operator resolved]
  exact ⟨fun becomes => (becomes.resolve_right fun refused => refused.1 admitted).2,
    fun applies => Or.inl ⟨admitted, applies⟩⟩

theorem resolves_symbol {name : String} {v : Value} {r : Except Fault Resolved}
    (notNil : name ≠ Symbol.nilName) (notTruth : name ≠ Symbol.truthName)
    (bound : w.scopes.get? env name = some v) :
    host.Resolves env (.symbol name) w r w' ↔ r = .ok (.value v) ∧ w' = w := by
  constructor
  · intro resolves
    cases resolves with
    | nilMarker => exact absurd rfl notNil
    | truthMarker => exact absurd rfl notTruth
    | symbol _ _ found =>
      cases bound.symm.trans found
      exact ⟨rfl, rfl⟩
    | unbound _ _ free => cases bound.symm.trans free
    | atom plain => exact plain.elim
  · rintro ⟨rfl, rfl⟩
    exact .symbol notNil notTruth bound

/-- An operator that is computed is called by the native. -/
theorem resolves_computed {r : Except Fault Resolved} (computes : operator.IsComputed) :
    host.Resolves env (Library.apply operator operands) w r w' ↔
      host.Resolves env (Library.apply Engine.callNative (operator :: operands)) w r w' := by
  refine ⟨fun resolves => ?_, .computed computes⟩
  have illegal : ∀ c, w.scopes.operator env operator ≠ .ok c := by
    obtain ⟨first, rest, rfl⟩ := computes
    exact nofun
  cases resolves with
  | atom plain => exact plain.elim
  | computed _ resolves => exact resolves
  | noOperator plain => exact absurd computes plain
  | expands resolved => exact absurd resolved (illegal _)
  | expandsNot resolved => exact absurd resolved (illegal _)
  | form resolved => exact absurd resolved (illegal _)
  | formArity resolved => exact absurd resolved (illegal _)
  | application resolved => exact absurd resolved (illegal _)

theorem resolvesAll_cons {r : Except Fault (List Resolved)} :
    host.ResolvesAll env (e :: es) w r w' ↔
      (∃ f, host.ResolvesAll env es w (.error f) w' ∧ r = .error f) ∨
      ∃ ts w₁ first, host.ResolvesAll env es w (.ok ts) w₁ ∧ host.Resolves env e w₁ first w' ∧
        r = first.map (· :: ts) := by
  constructor
  · intro resolves
    cases resolves with
    | cons rest first => exact Or.inr ⟨_, _, _, rest, first, rfl⟩
    | fails rest => exact Or.inl ⟨_, rest, rfl⟩
  · rintro (⟨f, rest, rfl⟩ | ⟨ts, w₁, first, rest, resolves, rfl⟩)
    · exact .fails rest
    · exact .cons rest resolves

/-- A function is made at once, unless its parameters are refused. -/
theorem resolves_lambda {r : Except Fault Resolved} {params body : List Value} :
    host.Resolves env (Library.lambda params body) w r w' ↔ w' = w.identified ∧
      r = ((Closure.make w.closures (.list params) (Engine.bodyOf body) env).mapError
        Error.fault).map fun f => .value (.callable (.closure f)) := by
  have admitted : Form.lambda.arity.Admits (Value.list params :: body).length :=
    Nat.succ_le_succ (Nat.zero_le _)
  rw [Library.lambda, resolves_form rfl admitted]
  constructor
  · intro applies
    cases applies with
    | lambda made =>
      obtain ⟨closure, rfl⟩ := Prod.mk.inj made
      exact ⟨rfl, by rw [closure]; rfl⟩
    | lambdaFails made =>
      obtain ⟨refused, rfl⟩ := Prod.mk.inj made
      exact ⟨rfl, by rw [refused]; rfl⟩
  · rintro ⟨rfl, rfl⟩
    cases made : Closure.make w.closures (.list params) (Engine.bodyOf body) env with
    | ok f => exact .lambda (congrArg (·, w.identified) made)
    | error e => exact .lambdaFails (congrArg (·, w.identified) made)

/-- A sequence waits for its first expression alone. -/
theorem resolves_sequence {r : Except Fault Resolved} :
    host.Resolves env (Library.apply (.form .sequence) (e :: es)) w r w' ↔
      ∃ first, host.Resolves env e w first w' ∧ r = first.map (.sequence env e es) := by
  rw [resolves_form (f := .sequence) rfl trivial]
  constructor
  · intro applies
    cases applies with
    | sequence resolves => exact ⟨_, resolves, rfl⟩
  · rintro ⟨first, resolves, rfl⟩
    exact .sequence resolves

/-! ### Evaluating -/

theorem direct_iff {r : Except Fault Value} : host.Direct env e w r w' ↔
    (∃ f, host.Resolves env e w (.error f) w' ∧ r = .error f) ∨
      ∃ t w₁, host.Resolves env e w (.ok t) w₁ ∧ host.Evaluates t w₁ r w' := by
  constructor
  · intro direct
    cases direct with
    | fails resolves => exact Or.inl ⟨_, resolves, rfl⟩
    | evaluates resolves evaluates => exact Or.inr ⟨_, _, resolves, evaluates⟩
  · rintro (⟨f, resolves, rfl⟩ | ⟨t, w₁, resolves, evaluates⟩)
    · exact .fails resolves
    · exact .evaluates resolves evaluates

/-- Expressions that become the same trees have the same results. -/
theorem direct_congr {env' : Environment} {e' : Value} {r : Except Fault Value}
    (same : ∀ {r w'}, host.Resolves env e w r w' ↔ host.Resolves env' e' w₁ r w') :
    host.Direct env e w r w' ↔ host.Direct env' e' w₁ r w' := by
  simp only [direct_iff, same]

theorem evaluates_application {operation : Operation} {ts : List Resolved} {origin : Value}
    {r : Except Fault Value} : host.Evaluates (.application operation ts origin) w r w' ↔
      (∃ f, host.EvaluatesAll ts w (.error f) w' ∧ r = .error f) ∨
        ∃ args w₁, host.EvaluatesAll ts w (.ok args) w₁ ∧
          host.Operates operation args w₁ r w' := by
  constructor
  · intro evaluates
    cases evaluates with
    | application operands operates => exact Or.inr ⟨_, _, operands, operates⟩
    | operandFails operands => exact Or.inl ⟨_, operands, rfl⟩
  · rintro (⟨f, operands, rfl⟩ | ⟨args, w₁, operands, operates⟩)
    · exact .operandFails operands
    · exact .application operands operates

theorem evaluatesAll_value {v : Value} {ts : List Resolved} {r : Except Fault (List Value)} :
    host.EvaluatesAll (.value v :: ts) w r w' ↔
      ∃ rest, host.EvaluatesAll ts w rest w' ∧ r = rest.map (v :: ·) := by
  constructor
  · intro evaluates
    cases evaluates with
    | cons first rest =>
      cases first
      exact ⟨_, rest, rfl⟩
    | fails first => cases first
  · rintro ⟨rest, evaluates, rfl⟩
    exact .cons .value evaluates

theorem evaluatesAll_single {t : Resolved} {r : Except Fault (List Value)} :
    host.EvaluatesAll [t] w r w' ↔
      ∃ first, host.Evaluates t w first w' ∧ r = first.map fun v => [v] := by
  constructor
  · intro evaluates
    cases evaluates with
    | cons first rest =>
      cases rest
      exact ⟨_, first, rfl⟩
    | fails first => exact ⟨_, first, rfl⟩
  · rintro ⟨first, evaluates, rfl⟩
    cases first with
    | ok v => exact .single evaluates
    | error f => exact .fails evaluates

theorem operates_callable {args : List Value} {r : Except Fault Value} :
    host.Operates (.callable c) args w r w' ↔ host.Calls c args w r w' := by
  constructor
  · intro operates
    cases operates with
    | callable calls => exact calls
  · exact .callable

theorem operates_sequel {args : List Value} {r : Except Fault Value} :
    host.Operates (.sequel env e) args w r w' ↔ host.Direct env e w r w' := by
  constructor
  · intro operates
    cases operates with
    | sequel direct => exact direct
  · exact .sequel

/-- A native that names another callable is that one. -/
theorem calls_invoke {n : Native} {args args' : List Value} {r : Except Fault Value}
    (replied : host.nativeReply n args w = (.ok (.invoke c args'), w₁)) :
    host.Calls (.native n) args w r w' ↔ host.Calls c args' w₁ r w' := by
  refine ⟨fun calls => ?_, .invoke replied⟩
  cases calls with
  | nativeFails other => cases replied.symm.trans other
  | value other => cases replied.symm.trans other
  | streamFails other => cases replied.symm.trans other
  | stream other => cases replied.symm.trans other
  | compile other => cases replied.symm.trans other
  | invoke other calls =>
    cases replied.symm.trans other
    exact calls

theorem calls_value {n : Native} {args : List Value} {v : Value} {r : Except Fault Value}
    (replied : host.nativeReply n args w = (.ok (.answer (.value v)), w₁)) :
    host.Calls (.native n) args w r w' ↔ r = .ok v ∧ w' = w₁ := by
  constructor
  · intro calls
    cases calls with
    | nativeFails other => cases replied.symm.trans other
    | value other =>
      cases replied.symm.trans other
      exact ⟨rfl, rfl⟩
    | streamFails other => cases replied.symm.trans other
    | stream other => cases replied.symm.trans other
    | compile other => cases replied.symm.trans other
    | invoke other => cases replied.symm.trans other
  · rintro ⟨rfl, rfl⟩
    exact .value replied

theorem calls_closure {f : Closure} {args : List Value} {r : Except Fault Value} :
    host.Calls (.closure f) args w r w' ↔
      host.Direct (w.enter f args).1 f.body (w.enter f args).2 r w' := by
  constructor
  · intro calls
    cases calls with
    | closure opened direct =>
      cases opened
      exact direct
  · exact .closure rfl

/-! ### Functions in the place of the operator -/

/-- A function of the environment is applied to operands: they are resolved, an identity is used up
for the function, they are evaluated, and a scope is opened for them. Which entries it has depends on
their values; what happens inside of it is left open. -/
inductive Opens (host : Host σ) (env : Environment) (operands : List Value)
    (entries : List Value → List (String × Value))
    (inside : Environment → World σ → Except Fault Value → World σ → Prop) (w : World σ) :
    Except Fault Value → World σ → Prop
  | unresolved {f : Fault} {w' : World σ} : host.ResolvesAll env operands w (.error f) w' →
      Opens host env operands entries inside w (.error f) w'
  | fails {ts : List Resolved} {f : Fault} {w₁ w' : World σ} :
      host.ResolvesAll env operands w (.ok ts) w₁ →
      host.EvaluatesAll ts w₁.identified (.error f) w' →
      Opens host env operands entries inside w (.error f) w'
  | enters {ts : List Resolved} {args : List Value} {r : Except Fault Value}
      {w₁ w₂ w' : World σ} : host.ResolvesAll env operands w (.ok ts) w₁ →
      host.EvaluatesAll ts w₁.identified (.ok args) w₂ →
      inside (w₂.openChild env (Table.ofEntries (entries args))).1
        (w₂.openChild env (Table.ofEntries (entries args))).2 r w' →
      Opens host env operands entries inside w r w'

/-- The tree of an application of a function that has been made. -/
theorem evaluates_made {f : Closure} {ts : List Resolved} {origin : Value}
    {r : Except Fault Value} :
    host.Evaluates (.application (.callable (.native (.primitive .call)))
        (.value (.callable (.closure f)) :: ts) origin) w r w' ↔
      (∃ fault, host.EvaluatesAll ts w (.error fault) w' ∧ r = .error fault) ∨
        ∃ args w₁, host.EvaluatesAll ts w (.ok args) w₁ ∧
          host.Direct (w₁.enter f args).1 f.body (w₁.enter f args).2 r w' := by
  have entered : ∀ {args w₁}, host.Operates (.callable (.native (.primitive .call)))
      (.callable (.closure f) :: args) w₁ r w' ↔
        host.Direct (w₁.enter f args).1 f.body (w₁.enter f args).2 r w' := fun {args w₁} =>
    operates_callable.trans ((calls_invoke (nativeReply_call _ args w₁)).trans calls_closure)
  rw [evaluates_application]
  constructor
  · rintro (⟨fault, operands, rfl⟩ | ⟨args, w₁, operands, operates⟩)
    · obtain ⟨rest, evaluates, failed⟩ := evaluatesAll_value.mp operands
      cases rest with
      | error f' =>
        cases failed
        exact Or.inl ⟨_, evaluates, rfl⟩
      | ok vs => cases failed
    · obtain ⟨rest, evaluates, ended⟩ := evaluatesAll_value.mp operands
      cases rest with
      | error f' => cases ended
      | ok vs =>
        cases ended
        exact Or.inr ⟨vs, w₁, evaluates, entered.mp operates⟩
  · rintro (⟨fault, evaluates, rfl⟩ | ⟨args, w₁, evaluates, direct⟩)
    · exact Or.inl ⟨_, evaluatesAll_value.mpr ⟨_, evaluates, rfl⟩, rfl⟩
    · exact Or.inr ⟨_, w₁, evaluatesAll_value.mpr ⟨_, evaluates, rfl⟩, entered.mpr direct⟩

/-- The tree that an application of a function becomes, once its operands are trees. -/
theorem resolves_applied {params body : List Value} {r : Except Fault Resolved} :
    host.Resolves env (Library.apply (Library.lambda params body) operands) w r w' ↔
      (∃ f, host.ResolvesAll env operands w (.error f) w' ∧ r = .error f) ∨
      ∃ ts w₁, host.ResolvesAll env operands w (.ok ts) w₁ ∧ w' = w₁.identified ∧
        r = ((Closure.make w₁.closures (.list params) (Engine.bodyOf body) env).mapError
          Error.fault).map fun f => .application (.callable (.native (.primitive .call)))
            (.value (.callable (.closure f)) :: ts)
            (Library.apply Engine.callNative (Library.lambda params body :: operands)) := by
  have computes : (Library.lambda params body).IsComputed := ⟨_, _, rfl⟩
  rw [resolves_computed computes, resolves_function (c := .native (.primitive .call)) rfl trivial]
  constructor
  · rintro ⟨all, resolves, rfl⟩
    rcases resolvesAll_cons.mp resolves with ⟨f, rest, rfl⟩ | ⟨ts, w₁, first, rest, made, rfl⟩
    · exact Or.inl ⟨f, rest, rfl⟩
    · obtain ⟨rfl, rfl⟩ := resolves_lambda.mp made
      refine Or.inr ⟨ts, w₁, rest, rfl, ?_⟩
      cases Closure.make w₁.closures (.list params) (Engine.bodyOf body) env <;> rfl
  · rintro (⟨f, rest, rfl⟩ | ⟨ts, w₁, rest, rfl, rfl⟩)
    · exact ⟨_, .fails rest, rfl⟩
    · refine ⟨_, .cons rest (resolves_lambda.mpr ⟨rfl, rfl⟩), ?_⟩
      cases Closure.make w₁.closures (.list params) (Engine.bodyOf body) env <;> rfl

/-- A function that hands the running closure through is applied. Its own closure is never seen. -/
theorem direct_applied {params body : List Value} {l : LambdaList} {r : Except Fault Value}
    (read : LambdaList.read (.list (Library.self :: params)) = .ok l) :
    host.Direct env (Library.apply (Library.lambda (Library.self :: params) body) operands) w r w' ↔
      host.Opens env operands l.entries (fun scope => host.Direct scope (Engine.bodyOf body))
        w r w' := by
  have started : LambdaList.readAfter [Symbol.selfName] params = .ok l :=
    LambdaList.read_self.symm.trans read
  obtain ⟨names, first⟩ := LambdaList.readAfter_seen started
  let made (w₁ : World σ) : Closure := ⟨w₁.closures, l.params, l.rest, Engine.bodyOf body, env⟩
  have makes : ∀ w₁ : World σ, Closure.make w₁.closures (.list (Library.self :: params))
      (Engine.bodyOf body) env = .ok (made w₁) := by
    intro w₁
    simp only [Closure.make, read]
    rfl
  have inside : ∀ (w₁ w₂ : World σ) args,
      w₂.enter (made w₁) args = w₂.openChild env (Table.ofEntries (l.entries args)) := by
    intro w₁ w₂ args
    unfold World.enter
    rw [Closure.arguments_table args first.symm]
    rfl
  constructor
  · intro direct
    rcases direct_iff.mp direct with ⟨f, resolves, rfl⟩ | ⟨t, w₁, resolves, evaluates⟩
    · rcases resolves_applied.mp resolves with ⟨f', all, same⟩ | ⟨ts, w₁, all, -, tree⟩
      · cases same
        exact .unresolved all
      · rw [makes] at tree
        cases tree
    · rcases resolves_applied.mp resolves with ⟨f', all, same⟩ | ⟨ts, w₂, all, rfl, tree⟩
      · cases same
      · rw [makes] at tree
        cases tree
        rcases evaluates_made.mp evaluates with ⟨f, values, rfl⟩ | ⟨args, w₃, values, direct⟩
        · exact .fails all values
        · rw [inside] at direct
          exact .enters all values direct
  · have applied : ∀ {ts w₁}, host.ResolvesAll env operands w (.ok ts) w₁ →
        host.Resolves env (Library.apply (Library.lambda (Library.self :: params) body) operands) w
          (.ok (.application (.callable (.native (.primitive .call)))
            (.value (.callable (.closure (made w₁))) :: ts) _)) w₁.identified := fun all =>
      resolves_applied.mpr (Or.inr ⟨_, _, all, rfl, by rw [makes]; rfl⟩)
    intro opens
    cases opens with
    | unresolved all => exact .fails (resolves_applied.mpr (Or.inl ⟨_, all, rfl⟩))
    | fails all values =>
      exact .evaluates (applied all) (evaluates_made.mpr (Or.inl ⟨_, values, rfl⟩))
    | enters all values direct =>
      refine .evaluates (applied all) (evaluates_made.mpr (Or.inr ⟨_, _, values, ?_⟩))
      rwa [inside]

end Host

end CooperativeLisp

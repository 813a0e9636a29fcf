import CooperativeLisp.Proofs.Realized
import CooperativeLisp.Proofs.Scopes

/-!
The end of an expression. The last operation of an expression's tree is what the expression comes
down to, and performing it either opens the body of a closure or compiles another expression of the
source in its place. Main statements: the machine makes every invocation at the end of an expression
with the frames and values that the expression was compiled on, and what stands in a tail position
of an expression stands at its end.
-/

namespace CooperativeLisp

variable {σ : Type}

/-- The machine before a call frame that stands on its arguments. -/
def Machine.calling (m : Machine) (i : Invocation) : Machine :=
  { m with
    frames := .call i.operation i.args.length i.origin :: m.frames
    stack := i.args.reverse ++ m.stack }

namespace Host

/-- An expression comes down to an invocation: it becomes the tree of one, and the operands have
these values. -/
def Readies (host : Host σ) (env : Environment) (e : Value) (w : World σ) (i : Invocation)
    (w' : World σ) : Prop :=
  ∃ operands w₁, host.Resolves env e w (.ok (.application i.operation operands i.origin)) w₁ ∧
    host.EvaluatesAll operands w₁ (.ok i.args) w'

/-- Calling a callable enters a closure, at once or through natives that name another callable to
be invoked in their place. The closure's scope is open then. -/
inductive Enters (host : Host σ) :
    Callable → List Value → World σ → Closure → Environment → World σ → Prop
  | closure {f : Closure} {args : List Value} {scope : Environment} {scopes : Scopes}
      {w : World σ} :
      w.scopes.openChild f.env (Table.ofEntries (f.arguments args)) = (scope, scopes) →
      Enters host (.closure f) args w f scope { w with scopes }
  | invoke {n : Native} {c : Callable} {f : Closure} {args args' : List Value}
      {scope : Environment} {w w₁ w' : World σ} :
      host.nativeReply n args w = (.ok (.invoke c args'), w₁) →
      Enters host c args' w₁ f scope w' → Enters host (.native n) args w f scope w'

/-- Performing an operation compiles an expression of the source in its place. -/
inductive Yields (host : Host σ) :
    Operation → List Value → World σ → Environment → Value → World σ → Prop
  | consequent {env : Environment} {t e : Value} {args : List Value} {w : World σ} :
      args.head?.any Value.isTrue = true → Yields host (.branch env t e) args w env t w
  | alternative {env : Environment} {t e : Value} {args : List Value} {w : World σ} :
      args.head?.any Value.isTrue = false → Yields host (.branch env t e) args w env e w
  | sequel {env : Environment} {next : Value} {args : List Value} {w : World σ} :
      Yields host (.sequel env next) args w env next w
  | body {c : Callable} {f : Closure} {args : List Value} {scope : Environment}
      {w w' : World σ} : Enters host c args w f scope w' →
      Yields host (.callable c) args w scope f.body w'

/-- An invocation at the end of an expression: the one it comes down to, or one at the end of what
that compiles in its place. -/
inductive EndsIn (host : Host σ) :
    Environment → Value → World σ → Invocation → World σ → Prop
  | here {env : Environment} {e : Value} {i : Invocation} {w w' : World σ} :
      host.Readies env e w i w' → EndsIn host env e w i w'
  | next {env env' : Environment} {e e' : Value} {i j : Invocation} {w w₁ w₂ w' : World σ} :
      host.Readies env e w i w₁ → host.Yields i.operation i.args w₁ env' e' w₂ →
      EndsIn host env' e' w₂ j w' → EndsIn host env e w j w'

variable {host : Host σ} {env env' scope : Environment} {e e' : Value} {i j : Invocation}
variable {c : Callable} {f : Closure} {args : List Value} {s : Stream}
variable {w w' w₁ w₂ : World σ}

/-! ### On the machine -/

theorem Readies.arrives (readies : host.Readies env e w i w') :
    ∃ s w₁, host.Answers (·.compile env e) w s w₁ ∧ ∀ m : Machine, ∃ n calls trace,
      host.Reaches n calls (m.answered (.ok (.stream s))) w₁
        (.pending (Machine.calling ⟨m.frames, m.stack, trace, m.cap⟩ i)) w' := by
  obtain ⟨operands, w₁, resolves, evaluates⟩ := readies
  obtain ⟨s, compiled, whole, frames⟩ := resolves.places.compile
  refine ⟨s, w₁, compiled, fun m => ?_⟩
  have count := evaluates.length rfl
  obtain ⟨n, calls, trace, reach⟩ := evaluates.delivers
    (m.before [.call i.operation operands.length i.origin])
  refine ⟨n, calls, trace, ?_⟩
  rw [← Machine.before_append, ← Resolved.frames, ← frames, ← count] at reach
  exact reach

theorem Enters.invokes {r : Stream} (enters : host.Enters c args w f scope w₁)
    (compiled : host.Answers (·.compile scope f.body) w₁ r w') :
    host.Answers (fun g => (g.invoke c args).run) w (.ok (.stream r)) w' := by
  induction enters with
  | closure opened =>
    exact invokes_of_reply (fun _ _ => Engine.reply_closure opened) (handles_compile compiled)
  | invoke replied _ ih => exact invokes_of_native replied (ih compiled)

theorem Yields.performs {operation : Operation}
    (yields : host.Yields operation args w env e w₁)
    (compiled : host.Answers (·.compile env e) w₁ s w') :
    host.Performs operation args w (.ok (.stream s)) w' := by
  cases yields with
  | consequent holds => exact performs_branch (by rwa [holds])
  | alternative fails => exact performs_branch (by rwa [fails])
  | sequel => exact performs_sequel compiled
  | body enters => exact enters.invokes compiled

theorem EndsIn.arrives (ends : host.EndsIn env e w i w') :
    ∃ s w₁, host.Answers (·.compile env e) w s w₁ ∧ ∀ m : Machine, ∃ n calls trace,
      host.Reaches n calls (m.answered (.ok (.stream s))) w₁
        (.pending (Machine.calling ⟨m.frames, m.stack, trace, m.cap⟩ i)) w' := by
  induction ends with
  | here readies => exact readies.arrives
  | @next _ _ _ _ i _ _ _ _ _ readies yields _ ih =>
    obtain ⟨s, w₁, compiled, arrives⟩ := readies.arrives
    obtain ⟨s', w₂, compiled', arrives'⟩ := ih
    refine ⟨s, w₁, compiled, fun m => ?_⟩
    obtain ⟨n, calls, trace, reach⟩ := arrives m
    obtain ⟨k, more, trace', rest⟩ :=
      arrives' ⟨m.frames, m.stack, (i.origin :: trace).take m.cap, m.cap⟩
    have step : host.Steps (Machine.calling ⟨m.frames, m.stack, trace, m.cap⟩ i) _
        (Machine.answered ⟨m.frames, m.stack, (i.origin :: trace).take m.cap, m.cap⟩
          (.ok (.stream s'))) _ := (yields.performs compiled').step
    exact ⟨_, _, trace', (reach.trans step.reaches).trans rest⟩

/-- What stands at the end of a closure's body is invoked with the frames and the values that the
closure was called with. -/
theorem EndsIn.from_call (yields : host.Yields i.operation i.args w env e w₁)
    (ends : host.EndsIn env e w₁ j w') (G : List Frame) (S T : List Value) (cap : BacktraceCap) :
    ∃ n calls T', host.Reaches n calls (.pending (Machine.calling ⟨G, S, T, cap⟩ i)) w
      (.pending (Machine.calling ⟨G, S, T', cap⟩ j)) w' := by
  obtain ⟨s, w₂, compiled, arrives⟩ := ends.arrives
  obtain ⟨n, calls, T', reach⟩ := arrives ⟨G, S, (i.origin :: T).take cap, cap⟩
  exact ⟨_, _, T', (yields.performs compiled).step.reaches.trans reach⟩

/-! ### Tail positions -/

/-- The expressions evaluate to values, one after the other. -/
inductive Runs (host : Host σ) : Environment → List Value → World σ → World σ → Prop
  | nil {env : Environment} {w : World σ} : Runs host env [] w w
  | cons {env : Environment} {e v : Value} {es : List Value} {w w₁ w' : World σ} :
      host.Direct env e w (.ok v) w₁ → Runs host env es w₁ w' → Runs host env (e :: es) w w'

/-- The expressions evaluate to true values, one after the other. -/
inductive Holds (host : Host σ) : Environment → List Value → World σ → World σ → Prop
  | nil {env : Environment} {w : World σ} : Holds host env [] w w
  | cons {env : Environment} {e v : Value} {es : List Value} {w w₁ w' : World σ} :
      host.Direct env e w (.ok v) w₁ → v.isTrue = true → Holds host env es w₁ w' →
      Holds host env (e :: es) w w'

/-- A function that is written in place of an operator is applied: the operands are resolved, the
function is made, the operands are evaluated, and its scope is opened with their values. -/
inductive Applied (host : Host σ) (env : Environment) (params body operands : List Value)
    (w : World σ) : Environment → World σ → Prop
  | intro {ts : List Resolved} {f : Closure} {args : List Value} {scope : Environment}
      {scopes : Scopes} {w₁ w₂ w₃ : World σ} :
      host.ResolvesAll env operands w (.ok ts) w₁ →
      w₁.makeClosure (.list params) (Engine.bodyOf body) env = (.ok f, w₂) →
      host.EvaluatesAll ts w₂ (.ok args) w₃ →
      w₃.scopes.openChild f.env (Table.ofEntries (f.arguments args)) = (scope, scopes) →
      Applied host env params body operands w scope { w₃ with scopes }

/-- The scopes of a `let*` are opened one inside the other, each for one name. -/
inductive Nested (host : Host σ) :
    Environment → List Binding → List Value → World σ → Environment → World σ → Prop
  | none {env scope : Environment} {body : List Value} {w w' : World σ} :
      Applied host env [Library.self] body [Library.self] w scope w' →
      Nested host env [] body w scope w'
  | last {env scope : Environment} {b : Binding} {body : List Value} {w w' : World σ} :
      Applied host env [Library.self, b.name] body [Library.self, b.init] w scope w' →
      Nested host env [b] body w scope w'
  | cons {env inner scope : Environment} {b : Binding} {bs : List Binding} {body : List Value}
      {w w₁ w' : World σ} : bs ≠ [] →
      Applied host env [Library.self, b.name] [Library.serialLet bs body] [Library.self, b.init] w
        inner w₁ →
      Nested host inner bs body w₁ scope w' → Nested host env (b :: bs) body w scope w'

/-- An operand of `or` is nil, so what is behind it is evaluated, in the scope of the function that
keeps it. -/
inductive Declines (host : Host σ) (env : Environment) (operand rest : Value) (w : World σ) :
    Environment → World σ → Prop
  | intro {k f : Closure} {t : Resolved} {u v : Value} {inner scope : Environment}
      {scopes scopes' : Scopes} {w₁ w₂ w₃ w₄ : World σ} :
      w.makeClosure (.list [Library.self]) rest env = (.ok k, w₁) →
      host.Resolves env operand w₁ (.ok t) w₂ →
      w₂.scopes.get? env Symbol.selfName = some u →
      w₂.makeClosure (.list [Library.self, .symbol "v", .symbol "k"])
        (Library.apply (.form .conditional)
          [.symbol "v", .symbol "v", .list [.symbol "k", Library.self]]) env = (.ok f, w₃) →
      host.Evaluates t w₃ (.ok v) w₄ → v.isTrue = false →
      w₄.scopes.openChild f.env (Table.ofEntries (f.arguments [u, v, .callable (.closure k)])) =
        (inner, scopes) →
      scopes.openChild k.env (Table.ofEntries (k.arguments [u])) = (scope, scopes') →
      Declines host env operand rest w scope { w₄ with scopes := scopes' }

/-- The operands of `or` in front of the last one are nil, one after the other. -/
inductive Declined (host : Host σ) :
    Environment → List Value → Value → World σ → Environment → World σ → Prop
  | nil {env : Environment} {last : Value} {w : World σ} : Declined host env [] last w env w
  | cons {env inner scope : Environment} {operand last : Value} {operands : List Value}
      {w w₁ w' : World σ} :
      Declines host env operand (Library.disjunction (operands ++ [last])) w inner w₁ →
      Declined host inner operands last w₁ scope w' →
      Declined host env (operand :: operands) last w scope w'

/-- The evaluation of an expression comes to a tail position of it, with the environment and the
world in which the expression there is compiled. -/
inductive TailPosition (host : Host σ) :
    Environment → Value → World σ → Environment → Value → World σ → Prop
  /-- the expression itself -/
  | here {env : Environment} {e : Value} {w : World σ} : TailPosition host env e w env e w
  /-- the first branch of `if` -/
  | consequent {env env' : Environment} {operator c t v e' : Value} {more : List Value}
      {w w₁ w' : World σ} : w.scopes.operator env operator = .ok (.form .conditional) →
      more.length ≤ 1 → host.Direct env c w (.ok v) w₁ → v.isTrue = true →
      TailPosition host env t w₁ env' e' w' →
      TailPosition host env (Library.apply operator (c :: t :: more)) w env' e' w'
  /-- the second branch of `if` -/
  | alternative {env env' : Environment} {operator c t e v e' : Value} {w w₁ w' : World σ} :
      w.scopes.operator env operator = .ok (.form .conditional) →
      host.Direct env c w (.ok v) w₁ → v.isTrue = false →
      TailPosition host env e w₁ env' e' w' →
      TailPosition host env (Library.apply operator [c, t, e]) w env' e' w'
  /-- the last form of `progn` -/
  | sequence {env env' : Environment} {operator last e' : Value} {before : List Value}
      {w w₁ w' : World σ} : w.scopes.operator env operator = .ok (.form .sequence) →
      host.Runs env before w w₁ → TailPosition host env last w₁ env' e' w' →
      TailPosition host env (Library.apply operator (before ++ [last])) w env' e' w'
  /-- the body of a closure that is called there, directly or through `call` or `apply` -/
  | body {env scope env' : Environment} {e origin e' : Value} {c : Callable} {f : Closure}
      {args : List Value} {w w₁ w₂ w' : World σ} :
      host.Readies env e w ⟨.callable c, args, origin⟩ w₁ → host.Enters c args w₁ f scope w₂ →
      TailPosition host scope f.body w₂ env' e' w' → TailPosition host env e w env' e' w'
  /-- the body of `let` -/
  | parallelLet {env scope env' : Environment} {operator bs e' : Value} {body : List Value}
      {bindings : List Binding} {w w₁ w' : World σ} :
      w.scopes.operator env operator = .ok (.expander .parallelLet) →
      Binding.readAll bs = .ok bindings →
      host.Applied env (Library.self :: bindings.map (·.name)) body
        (Library.self :: bindings.map (·.init)) w scope w₁ →
      TailPosition host scope (Engine.bodyOf body) w₁ env' e' w' →
      TailPosition host env (Library.apply operator (bs :: body)) w env' e' w'
  /-- the body of `let*` -/
  | serialLet {env scope env' : Environment} {operator bs e' : Value} {body : List Value}
      {bindings : List Binding} {w w₁ w' : World σ} :
      w.scopes.operator env operator = .ok (.expander .serialLet) →
      Binding.readAll bs = .ok bindings → host.Nested env bindings body w scope w₁ →
      TailPosition host scope (Engine.bodyOf body) w₁ env' e' w' →
      TailPosition host env (Library.apply operator (bs :: body)) w env' e' w'
  /-- the last operand of `and` -/
  | conjunction {env env' : Environment} {operator last e' : Value} {before : List Value}
      {w w₁ w' : World σ} : w.scopes.operator env operator = .ok (.expander .conjunction) →
      host.Holds env before w w₁ → TailPosition host env last w₁ env' e' w' →
      TailPosition host env (Library.apply operator (before ++ [last])) w env' e' w'
  /-- the last operand of `or` -/
  | disjunction {env scope env' : Environment} {operator last e' : Value} {before : List Value}
      {w w₁ w' : World σ} : w.scopes.operator env operator = .ok (.expander .disjunction) →
      host.Declined env before last w scope w₁ →
      TailPosition host scope last w₁ env' e' w' →
      TailPosition host env (Library.apply operator (before ++ [last])) w env' e' w'

/-! ### What stands in a tail position stands at the end -/

section
variable {operator t v : Value} {operands es : List Value}

/-- An expression that becomes the trees of another ends as that one does. -/
theorem EndsIn.of_resolves (ends : host.EndsIn env e w i w')
    (same : ∀ {r w₂}, host.Resolves env e w r w₂ → host.Resolves env' e' w₁ r w₂) :
    host.EndsIn env' e' w₁ i w' := by
  cases ends with
  | here readies =>
    obtain ⟨operands, w₂, resolves, evaluates⟩ := readies
    exact .here ⟨operands, w₂, same resolves, evaluates⟩
  | next readies yields ends =>
    obtain ⟨operands, w₂, resolves, evaluates⟩ := readies
    exact .next ⟨operands, w₂, same resolves, evaluates⟩ yields ends

theorem EndsIn.of_expansion {x : Expander} (ends : host.EndsIn env e w₁ i w')
    (resolved : w.scopes.operator env operator = .ok (.expander x))
    (expansion : host.expansion x operands env w = (.ok e, w₁)) :
    host.EndsIn env (Library.apply operator operands) w i w' :=
  ends.of_resolves fun resolves => .expands resolved expansion resolves

theorem EvaluatesAll.single {tree : Resolved} (evaluates : host.Evaluates tree w (.ok v) w') :
    host.EvaluatesAll [tree] w (.ok [v]) w' :=
  .cons evaluates .nil

theorem EndsIn.of_branch (more : List Value)
    (resolved : w.scopes.operator env operator = .ok (.form .conditional))
    (few : more.length ≤ 1) (test : host.Direct env e w (.ok v) w₁)
    (yields : host.Yields (.branch env t (more.headD .nil)) [v] w₁ env' e' w₁)
    (ends : host.EndsIn env' e' w₁ i w') :
    host.EndsIn env (Library.apply operator (e :: t :: more)) w i w' := by
  cases test with
  | evaluates resolves evaluates =>
    refine .next (i := ⟨.branch env t (more.headD .nil), [v],
      Library.apply (.symbol "if") (e :: t :: more)⟩) ⟨_, _, ?_, .single evaluates⟩ yields ends
    match more, few with
    | [], _ => exact .form resolved (Nat.le_refl 2) (.choice resolves)
    | [e'], _ => exact .form resolved (Nat.le_succ 2) (.fullChoice resolves)

/-- A sequence that is resolved evaluates to the value of its last expression. -/
theorem Runs.evaluates {tree : Resolved} (runs : host.Runs env es w₁ w') (origin : Value)
    (first : host.Evaluates tree w (.ok v) w₁) :
    ∃ u, host.Evaluates
      (es.foldl (fun t next => .application (.sequel env next) [t] origin) tree) w (.ok u) w' := by
  induction runs generalizing tree v with
  | nil => exact ⟨v, first⟩
  | cons direct _ ih => exact ih (.application (.single first) (.sequel direct))

theorem EndsIn.of_sequence {last : Value}
    (resolved : w.scopes.operator env operator = .ok (.form .sequence))
    (runs : host.Runs env es w w₁) (ends : host.EndsIn env last w₁ i w') :
    host.EndsIn env (Library.apply operator (es ++ [last])) w i w' := by
  cases runs with
  | nil =>
    refine ends.of_resolves fun {r _} resolves => ?_
    have applies : host.Applies .sequence [last] env w (r.map (Resolved.sequence env last [])) _ :=
      .sequence resolves
    cases r <;> exact .form resolved trivial applies
  | @cons first _ rest _ _ _ direct runs =>
    cases direct with
    | evaluates resolves evaluates =>
      have tree : host.Applies .sequence (first :: (rest ++ [last])) env w
          ((Except.ok _).map (Resolved.sequence env first (rest ++ [last]))) _ := .sequence resolves
      simp only [Except.map, Resolved.sequence, List.foldl_append, List.foldl_cons,
        List.foldl_nil] at tree
      obtain ⟨u, evaluates⟩ := runs.evaluates
        (Library.apply (.symbol "progn") (first :: (rest ++ [last]))) evaluates
      exact .next (i := ⟨.sequel env last, [u], _⟩)
        ⟨_, _, .form resolved trivial tree, .single evaluates⟩ .sequel ends

theorem makeClosure_ok {params body : Value} (made : w.makeClosure params body env = (.ok f, w')) :
    f.body = body ∧ f.env = env ∧ w'.scopes = w.scopes := by
  unfold World.makeClosure Closure.make at made
  cases read : LambdaList.read params with
  | error e => simp [read] at made
  | ok params =>
    simp only [read, Prod.mk.injEq, Except.ok.injEq] at made
    obtain ⟨rfl, rfl⟩ := made
    exact ⟨rfl, rfl, rfl⟩

theorem nativeReply_call (c : Callable) (args : List Value) (w : World σ) :
    host.nativeReply (.primitive .call) (.callable c :: args) w = (.ok (.invoke c args), w) := by
  have admitted : (Arity.atLeast 1).Admits (args.length + 1) :=
    Nat.succ_le_succ (Nat.zero_le _)
  simp [nativeReply, Primitive.run, Primitive.arity, Arity.validate_eq_ok_iff.mpr admitted,
    Primitive.body, Library.call, bind, Except.bind]

/-- The function in place of the operator is called through the native. -/
theorem Applied.readies {params body : List Value}
    (applied : host.Applied env params body operands w scope w') :
    ∃ f args origin w₁, host.Readies env (Library.apply (Library.lambda params body) operands) w
        ⟨.callable (.native (.primitive .call)), args, origin⟩ w₁ ∧
      host.Enters (.native (.primitive .call)) args w₁ f scope w' ∧
      f.body = Engine.bodyOf body := by
  cases applied with
  | @intro ts f args _ scopes w₁ w₂ w₃ resolves made values opened =>
    have function : host.Resolves env (Library.lambda params body) w₁
        (.ok (.value (.callable (.closure f)))) w₂ :=
      .form rfl (Nat.succ_le_succ (Nat.zero_le _)) (.lambda made)
    have tree : host.Resolves env (Library.apply (Library.lambda params body) operands) w
        (.ok (.application (.callable (.native (.primitive .call)))
          (.value (.callable (.closure f)) :: ts) _)) w₂ :=
      .computed ⟨_, _, rfl⟩
        (.application (c := .native (.primitive .call)) rfl trivial (.cons resolves function))
    refine ⟨f, .callable (.closure f) :: args, _, w₃, ⟨_, _, tree, .cons .value values⟩,
      .invoke ?_ (.closure opened), ?_⟩
    · exact nativeReply_call _ _ _
    · exact (makeClosure_ok made).1

theorem EndsIn.of_applied {params body : List Value}
    (applied : host.Applied env params body operands w scope w₁)
    (ends : host.EndsIn scope (Engine.bodyOf body) w₁ i w') :
    host.EndsIn env (Library.apply (Library.lambda params body) operands) w i w' := by
  obtain ⟨f, args, origin, w₂, readies, enters, same⟩ := applied.readies
  rw [← same] at ends
  exact .next readies (.body enters) ends

/-! ### Binding forms and connectives -/

theorem isNameLike_of_read {item : Value} {b : Binding} (read : Binding.read item = .ok b) :
    Binding.isNameLike b.name = true := by
  unfold Binding.read at read
  split at read
  · cases read
    rfl
  · split at read
    · rename_i nameLike
      cases read
      exact nameLike
    · cases read
  · split at read
    · rename_i nameLike
      cases read
      exact nameLike
    · cases read
  · cases read

/-- Every binding of a binding list is read from one of its items. -/
theorem exists_of_mem_readAll {bs : Value} {bindings : List Binding}
    (read : Binding.readAll bs = .ok bindings) {b : Binding} (member : b ∈ bindings) :
    ∃ items item, bs.toList? = some items ∧ item ∈ items ∧ Binding.read item = .ok b := by
  unfold Binding.readAll at read
  split at read
  · rename_i items listed
    refine ⟨items, ?_⟩
    suffices source : ∃ item ∈ items, Binding.read item = .ok b by
      obtain ⟨item, inList, one⟩ := source
      exact ⟨item, listed, inList, one⟩
    clear listed
    induction items generalizing bindings with
    | nil =>
      cases read
      cases member
    | cons item items ih =>
      rw [List.mapM_cons] at read
      cases first : Binding.read item with
      | error e => simp [first, bind, Except.bind] at read
      | ok b' =>
        cases others : items.mapM Binding.read with
        | error e => simp [first, others, bind, Except.bind] at read
        | ok more =>
          simp only [first, others, bind, Except.bind, pure, Except.pure, Except.ok.injEq] at read
          subst read
          rcases List.mem_cons.mp member with rfl | later
          · exact ⟨item, List.mem_cons_self, first⟩
          · obtain ⟨source, inList, one⟩ := ih later others
            exact ⟨source, List.mem_cons_of_mem _ inList, one⟩
  · cases read

theorem readAll_nameLike {bs : Value} {bindings : List Binding}
    (read : Binding.readAll bs = .ok bindings) :
    ∀ b ∈ bindings, Binding.isNameLike b.name = true := by
  intro b member
  obtain ⟨items, item, listed, inList, one⟩ := exists_of_mem_readAll read member
  exact isNameLike_of_read one

theorem readAll_single {b : Binding} (nameLike : Binding.isNameLike b.name = true) :
    Binding.readAll (.list [b.toValue]) = .ok [b] := by
  simp [Binding.readAll, Value.toList?, Binding.toValue, Binding.read, nameLike, bind, Except.bind,
    pure, Except.pure]

theorem expansion_parallelLet {bs : Value} {bindings : List Binding} {body : List Value}
    (read : Binding.readAll bs = .ok bindings) :
    host.expansion .parallelLet (bs :: body) env w =
      (.ok (Library.parallelLet bindings body), w) := by
  have admitted : (Arity.atLeast 1).Admits (body.length + 1) := Nat.succ_le_succ (Nat.zero_le _)
  simp [expansion, Expander.arity, Arity.validate_eq_ok_iff.mpr admitted, Expander.expand?, read,
    bind, Except.bind, pure, Except.pure]

theorem expansion_serialLet {bs : Value} {bindings : List Binding} {body : List Value}
    (read : Binding.readAll bs = .ok bindings) :
    host.expansion .serialLet (bs :: body) env w =
      (.ok (Library.serialLet bindings body), w) := by
  have admitted : (Arity.atLeast 1).Admits (body.length + 1) := Nat.succ_le_succ (Nat.zero_le _)
  simp [expansion, Expander.arity, Arity.validate_eq_ok_iff.mpr admitted, Expander.expand?, read,
    bind, Except.bind, pure, Except.pure]

theorem EndsIn.of_let {bs : Value} {bindings : List Binding} {body : List Value}
    (resolved : w.scopes.operator env operator = .ok (.expander .parallelLet))
    (read : Binding.readAll bs = .ok bindings)
    (applied : host.Applied env (Library.self :: bindings.map (·.name)) body
      (Library.self :: bindings.map (·.init)) w scope w₁)
    (ends : host.EndsIn scope (Engine.bodyOf body) w₁ i w') :
    host.EndsIn env (Library.apply operator (bs :: body)) w i w' :=
  (EndsIn.of_applied applied ends).of_expansion resolved (expansion_parallelLet read)

theorem serialLet_cons {b : Binding} {bs : List Binding} {body : List Value} (more : bs ≠ []) :
    Library.serialLet (b :: bs) body = Library.letForm [b] [Library.serialLet bs body] := by
  cases back : bs.reverse with
  | nil => exact absurd (List.reverse_eq_nil_iff.mp back) more
  | cons last before => simp [Library.serialLet, back]

theorem conjunction_cons (operand last : Value) (before : List Value) :
    Library.conjunction (operand :: (before ++ [last])) =
      Library.apply (.form .conditional) [operand, Library.conjunction (before ++ [last]), .nil] := by
  simp [Library.conjunction]

theorem disjunction_cons (operand last : Value) (before : List Value) :
    Library.disjunction (operand :: (before ++ [last])) =
      Library.choice operand (Library.disjunction (before ++ [last])) := by
  simp [Library.disjunction]

theorem EndsIn.of_nested {bindings : List Binding} {body : List Value}
    (nested : host.Nested env bindings body w scope w₁)
    (nameLike : ∀ b ∈ bindings, Binding.isNameLike b.name = true)
    (ends : host.EndsIn scope (Engine.bodyOf body) w₁ i w') :
    host.EndsIn env (Library.serialLet bindings body) w i w' := by
  induction nested with
  | none applied => exact EndsIn.of_let rfl rfl applied ends
  | last applied =>
    exact EndsIn.of_let rfl (readAll_single (nameLike _ List.mem_cons_self))
      applied ends
  | cons more applied _ ih =>
    rw [serialLet_cons more]
    have inside := ih (fun b member => nameLike b (List.mem_cons_of_mem _ member)) ends
    exact EndsIn.of_let rfl (readAll_single (nameLike _ List.mem_cons_self))
      applied inside

theorem EndsIn.of_holds {before : List Value} {last : Value} (holds : host.Holds env before w w₁)
    (ends : host.EndsIn env last w₁ i w') :
    host.EndsIn env (Library.conjunction (before ++ [last])) w i w' := by
  induction holds with
  | nil => exact ends
  | cons direct isTrue _ ih =>
    rw [List.cons_append, conjunction_cons]
    refine .of_branch [.nil] rfl (Nat.le_refl 1) direct (.consequent ?_) (ih ends)
    simpa using isTrue

theorem direct_symbol {name : String} {u : Value} (notNil : name ≠ Symbol.nilName)
    (notTruth : name ≠ Symbol.truthName) (bound : w.scopes.get? env name = some u) :
    host.Direct env (.symbol name) w (.ok u) w :=
  .evaluates (.symbol notNil notTruth bound) .value

/-- The function that `or` expands into finds its operand to be nil and calls what it keeps. -/
theorem EndsIn.of_declines {operand rest : Value}
    (declines : host.Declines env operand rest w scope w₁)
    (ends : host.EndsIn scope rest w₁ i w') :
    host.EndsIn env (Library.choice operand rest) w i w' := by
  cases declines with
  | @intro k f t u v inner scope scopes scopes' w₁ w₂ w₃ w₄ kept resolves bound made evaluates isNil
      opened entered =>
    have keeps : host.Resolves env (Library.lambda [Library.self] [rest]) w
        (.ok (.value (.callable (.closure k)))) w₁ :=
      .form rfl (Nat.succ_le_succ (Nat.zero_le _)) (.lambda kept)
    have self : host.Resolves env Library.self w₂ (.ok (.value u)) w₂ :=
      .symbol (by decide) (by decide) bound
    have operands := ResolvesAll.cons (.cons (.cons .nil keeps) resolves) self
    have values : host.EvaluatesAll [.value u, t, .value (.callable (.closure k))] w₃
        (.ok [u, v, .callable (.closure k)]) w₄ := .cons .value (.cons evaluates (.single .value))
    have applied : host.Applied env [Library.self, .symbol "v", .symbol "k"]
        [Library.apply (.form .conditional)
          [.symbol "v", .symbol "v", .list [.symbol "k", Library.self]]]
        [Library.self, operand, Library.lambda [Library.self] [rest]] w inner
        { w₄ with scopes } := .intro operands made values opened
    refine .of_applied applied ?_
    -- inside, every name stands for its argument
    have params : f.params = ["recur", "v", "k"] ∧ f.rest = .ignored := by
      cases made
      exact ⟨rfl, rfl⟩
    have found (name : String) {x : Value}
        (last : ((f.arguments [u, v, .callable (.closure k)]).reverse).lookup name = some x) :
        scopes.get? inner name = some x :=
      Scopes.get?_openChild opened ((Table.ofEntries_get _ name).trans last)
    simp only [Closure.arguments, params.1, params.2] at found
    have operandHere : host.Direct inner (.symbol "v") { w₄ with scopes } (.ok v) { w₄ with scopes } :=
      direct_symbol (by decide) (by decide) (found _ rfl)
    refine .of_branch [_] rfl (Nat.le_refl 1) operandHere
      (.alternative (by simpa using isNil)) ?_
    have operator : scopes.operator inner (.symbol "k") = .ok (.closure k) := by
      simp only [Scopes.operator, found "k" rfl]
    have selfHere : host.Resolves inner Library.self { w₄ with scopes } (.ok (.value u))
        { w₄ with scopes } := .symbol (by decide) (by decide) (found _ rfl)
    have tree := Resolves.application (c := .closure k) operator trivial (.cons .nil selfHere)
    have called : host.Readies inner (.list [.symbol "k", Library.self]) { w₄ with scopes }
        ⟨.callable (.closure k), [u], .list [.symbol "k", Library.self]⟩ { w₄ with scopes } :=
      ⟨[.value u], _, tree, .single .value⟩
    rw [← (makeClosure_ok kept).1] at ends
    exact .next called (.body (.closure entered)) ends

theorem EndsIn.of_declined {before : List Value} {last : Value}
    (declined : host.Declined env before last w scope w₁) (ends : host.EndsIn scope last w₁ i w') :
    host.EndsIn env (Library.disjunction (before ++ [last])) w i w' := by
  induction declined with
  | nil => exact ends
  | cons declines _ ih =>
    rw [List.cons_append, disjunction_cons]
    exact .of_declines declines (ih ends)

/-- What ends a tail position ends the expression. -/
theorem TailPosition.endsIn (position : host.TailPosition env e w env' e' w₁)
    (ends : host.EndsIn env' e' w₁ i w') : host.EndsIn env e w i w' := by
  induction position with
  | here => exact ends
  | consequent resolved few test isTrue _ ih =>
    exact .of_branch _ resolved few test (.consequent (by simpa using isTrue)) (ih ends)
  | @alternative _ _ _ _ _ e _ _ _ _ _ resolved test isNil _ ih =>
    exact .of_branch [e] resolved (Nat.le_refl 1) test
      (.alternative (by simpa using isNil)) (ih ends)
  | sequence resolved runs _ ih => exact .of_sequence resolved runs (ih ends)
  | body readies enters _ ih => exact .next readies (.body enters) (ih ends)
  | parallelLet resolved read applied _ ih => exact .of_let resolved read applied (ih ends)
  | serialLet resolved read nested _ ih =>
    exact (EndsIn.of_nested nested (readAll_nameLike read) (ih ends)).of_expansion resolved
      (expansion_serialLet read)
  | conjunction resolved holds _ ih =>
    exact (EndsIn.of_holds holds (ih ends)).of_expansion resolved rfl
  | disjunction resolved declined _ ih =>
    exact (EndsIn.of_declined declined (ih ends)).of_expansion resolved rfl

end

end Host

end CooperativeLisp

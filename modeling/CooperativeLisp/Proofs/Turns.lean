import CooperativeLisp.Proofs.Innermost

/-!
Which expressions have their turn. An expression stands in forms, one inside the other: as an operand
of a call, in a condition or a sequence, in a binding form or a connective. Main statement: the
evaluation comes to it, unless at one of its places what has its turn before does not end with a value,
or a test leads past it. So the steps from an expression to those that stand in it leave nothing out.
-/

namespace CooperativeLisp

variable {σ : Type} {roots : ScopeId → Prop} {keeps : Scopes → σ → Prop}

/-- A place for an expression in a form. -/
inductive Place where
  /-- an operand of a call -/
  | operand (operator : Value) (before after : List Value)
  /-- the test of `if` -/
  | test (operator t : Value) (other : Option Value)
  /-- the first branch of `if` -/
  | consequent (operator c : Value) (other : Option Value)
  /-- the second branch of `if` -/
  | alternative (operator c t : Value)
  /-- the first expression of `progn` -/
  | first (operator : Value) (after : List Value)
  /-- an expression of `progn` behind the first one -/
  | sequel (operator head : Value) (before after : List Value)
  /-- the expression that a binding form binds a name to -/
  | init (x : Expander) (operator : Value) (before : List Value) (name : Value)
    (after forms : List Value)
  /-- a form in the body of a binding form -/
  | body (x : Expander) (operator bindings : Value) (before after : List Value)
  /-- an operand of `and` -/
  | conjunct (operator : Value) (before after : List Value)
  /-- an operand of `or` -/
  | disjunct (operator : Value) (before after : List Value)
  /-- a form in the body of a function that is applied at once, as the binding forms expand into -/
  | applied (params inits before after : List Value)
  /-- what stands behind an operand of `or`, in what it expands into -/
  | others (tested : Value)

namespace Place

/-- The form with an expression in the place. -/
def fill (e : Value) : Place → Value
  | operand operator before after | conjunct operator before after
  | disjunct operator before after => Library.apply operator (before ++ e :: after)
  | test operator t other => Library.apply operator (e :: t :: other.toList)
  | consequent operator c other => Library.apply operator (c :: e :: other.toList)
  | alternative operator c t => Library.apply operator [c, t, e]
  | first operator after => Library.apply operator (e :: after)
  | sequel operator head before after => Library.apply operator (head :: (before ++ e :: after))
  | init _ operator before name after forms =>
    Library.apply operator (.list (before ++ .list [name, e] :: after) :: forms)
  | body _ operator bindings before after =>
    Library.apply operator (bindings :: (before ++ e :: after))
  | applied params inits before after =>
    Library.apply (Library.lambda (Library.self :: params) (before ++ e :: after))
      (Library.self :: inits)
  | others tested => Library.choice tested e

/-- An expression in places one inside the other, the outermost one first. -/
def fillAll (places : List Place) (e : Value) : Value :=
  places.foldr (fun place e => place.fill e) e

/-- The operator of the form stands for what the place is in: a function, or one of the standard
forms. -/
def Standard (scopes : Scopes) (env : Environment) : Place → Prop
  | operand operator _ _ =>
    operator.IsComputed ∨ ∃ c, scopes.operator env operator = .ok c ∧ c.IsFunction
  | test operator .. | consequent operator .. | alternative operator .. =>
    scopes.operator env operator = .ok (.form .conditional)
  | first operator .. | sequel operator .. => scopes.operator env operator = .ok (.form .sequence)
  | init x operator .. | body x operator .. =>
    scopes.operator env operator = .ok (.expander x) ∧ (x = .parallelLet ∨ x = .serialLet)
  | conjunct operator .. => scopes.operator env operator = .ok (.expander .conjunction)
  | disjunct operator .. => scopes.operator env operator = .ok (.expander .disjunction)
  | applied .. | others .. => True

/-- What stands in the place is resolved with the form. -/
def WithForm : Place → Prop
  | operand .. | test .. | first .. => True
  | _ => False

/-- What stands in the place has its turn when the tree of the form is evaluated. -/
def Waits : Place → Prop
  | consequent .. | alternative .. | sequel .. | applied .. | others .. => True
  | _ => False

/-- The form is resolved as it stands. -/
def Plain : Place → Prop
  | init .. | body .. | conjunct .. | disjunct .. => False
  | _ => True

/-- A place in what a form expands into: its operator means the same wherever it stands. -/
def Inherent (p : Place) : Prop :=
  p.Plain ∧ ∀ scopes env, p.Standard scopes env

/-- A place in one of the binding forms that `let*` expands into. -/
def InLet : Place → Prop
  | init x operator .. | body x operator .. => x = .parallelLet ∧ operator = .expander .parallelLet
  | _ => False

/-- A form in which an expression has the same places whatever it is. -/
def Around (inside : Place → Prop) (form : Value → Value) : Prop :=
  ∃ qs, (∀ e, form e = fillAll qs e) ∧ ∀ q ∈ qs, inside q

/-- Whatever stands in an operand, the operands are refused, or they expand into a form around it. -/
def Unfolds (x : Expander) (operands : Value → List Value) (inside : Place → Prop) : Prop :=
  (∀ e, ∃ error, x.expand? (operands e) = some (.error error)) ∨
    ∃ form, (∀ e, x.expand? (operands e) = some (.ok (form e))) ∧ Around inside form

end Place

namespace Host

/-- The evaluation of `whole` does not get as far as to the tree of an expression: this one or the form
around it becomes no tree, or it is an operand and those in front of it have no values. -/
inductive Stalls (host : Host σ) (start : Environment) (whole : Value) (w : World σ)
    (env : Environment) : Value → Prop
  | unresolved {e : Value} {w₁ : World σ} : host.Comes start whole w (.resolves env e) w₁ →
      (¬ ∃ t w', host.Resolves env e w₁ (.ok t) w') → Stalls host start whole w env e
  | inFront {operator e origin : Value} {before after : List Value} {c : Callable}
      {ts us : List Resolved} {t : Resolved} {w₁ : World σ} :
      host.Comes start whole w (.evaluates env (Library.apply operator (before ++ e :: after))
        (.application (.callable c) (ts ++ t :: us) origin)) w₁ →
      ts.length = before.length → (¬ ∃ vs w', host.EvaluatesAll ts w₁ (.ok vs) w') →
      Stalls host start whole w env e
  | replaced {e e' : Value} {w₁ : World σ} : host.Comes start whole w (.resolves env e) w₁ →
      w₁.scopes.Replaces env e e' → Stalls host start whole w env e →
      Stalls host start whole w env e'
  | withForm {p : Place} {e : Value} : p.WithForm → Stalls host start whole w env (p.fill e) →
      Stalls host start whole w env e

/-- The evaluation of `whole` comes to a form, but not to what stands in a place of it: what has its
turn before does not end with a value, or the value of a test leads past it. -/
inductive Barred (host : Host σ) (start : Environment) (whole : Value) (w : World σ) :
    Environment → Place → Value → Prop
  /-- the operands behind it become no trees -/
  | behind {env : Environment} {operator e : Value} {before after : List Value} {w₁ : World σ} :
      host.Comes start whole w (.resolves env (Library.apply operator (before ++ e :: after))) w₁ →
      (¬ ∃ ts w', host.ResolvesAll env after w₁ (.ok ts) w') →
      Barred host start whole w env (.operand operator before after) e
  /-- the form does not get as far as to its tree -/
  | stalls {env : Environment} {p : Place} {e : Value} {w₁ : World σ} : p.Waits →
      host.Comes start whole w (.resolves env (p.fill e)) w₁ →
      host.Stalls start whole w env (p.fill e) → Barred host start whole w env p e
  /-- the test is nil, or has no value -/
  | consequent {env : Environment} {operator c e : Value} {other : Option Value} {u : Resolved}
      {w₁ : World σ} :
      host.Comes start whole w (.evaluates env (Library.apply operator (c :: e :: other.toList))
        (.conditional env (c :: e :: other.toList) e (other.getD .nil) u)) w₁ →
      (¬ ∃ v w', host.Evaluates u w₁ (.ok v) w' ∧ v.isTrue = true) →
      Barred host start whole w env (.consequent operator c other) e
  /-- the test is true, or has no value -/
  | alternative {env : Environment} {operator c t e : Value} {u : Resolved} {w₁ : World σ} :
      host.Comes start whole w (.evaluates env (Library.apply operator [c, t, e])
        (.conditional env [c, t, e] t e u)) w₁ →
      (¬ ∃ v w', host.Evaluates u w₁ (.ok v) w' ∧ v.isTrue = false) →
      Barred host start whole w env (.alternative operator c t) e
  /-- the expressions in front of it have no values -/
  | sequel {env : Environment} {operator head e : Value} {before after : List Value} {u : Resolved}
      {w₁ : World σ} :
      host.Comes start whole w (.evaluates env
        (Library.apply operator (head :: (before ++ e :: after)))
        (.sequence env head (before ++ e :: after) u)) w₁ →
      (¬ ∃ v w₂ w', host.Evaluates u w₁ (.ok v) w₂ ∧ host.Runs env before w₂ w') →
      Barred host start whole w env (.sequel operator head before after) e
  /-- the operands, or the forms in front of it, have no values -/
  | applied {env : Environment} {e origin : Value} {params inits before after : List Value}
      {l : LambdaList} {identity : Nat} {ts : List Resolved} {w₁ : World σ} :
      host.Comes start whole w (.evaluates env (Library.apply
          (Library.lambda (Library.self :: params) (before ++ e :: after)) (Library.self :: inits))
        (.application (.callable (.native (.primitive .call)))
          (.value (.callable (.closure ⟨identity, l.params, l.rest,
            Engine.bodyOf (before ++ e :: after), env⟩)) :: ts) origin)) w₁ →
      (¬ ∃ args w₂ scope w₃ w', host.EvaluatesAll ts w₁ (.ok args) w₂ ∧
        w₂.openChild env (Table.ofEntries (l.entries args)) = (scope, w₃) ∧
        host.Runs scope before w₃ w') →
      Barred host start whole w env (.applied params inits before after) e
  /-- the operand in front of it is true, or has no value -/
  | others {env : Environment} {operand e own origin : Value} {u : Resolved}
      {looking identity : Nat} {w₁ : World σ} :
      host.Comes start whole w (.evaluates env (Library.choice operand e)
        (.application (.callable (.native (.primitive .call)))
          [.value (.callable (.closure (.looking looking env))), .value own, u,
            .value (.callable (.closure ⟨identity, [Symbol.selfName], .ignored, e, env⟩))]
          origin)) w₁ →
      (¬ ∃ v w', host.Evaluates u w₁ (.ok v) w' ∧ v.isTrue = false) →
      Barred host start whole w env (.others operand) e
  /-- the form is malformed -/
  | refused {env : Environment} {p : Place} {operator e : Value} {operands : List Value}
      {x : Expander} {error : Error} {w₁ : World σ} :
      host.Comes start whole w (.resolves env (p.fill e)) w₁ →
      p.fill e = Library.apply operator operands →
      w₁.scopes.operator env operator = .ok (.expander x) →
      x.expand? operands = some (.error error) → Barred host start whole w env p e
  /-- it is barred in what the form is resolved as -/
  | replaced {env env' : Environment} {p q : Place} {qs inner : List Place} {e : Value}
      {w₁ : World σ} : host.Comes start whole w (.resolves env (p.fill e)) w₁ →
      (∀ e, w₁.scopes.Replaces env (p.fill e) (Place.fillAll qs e)) → q :: inner <:+ qs →
      Barred host start whole w env' q (Place.fillAll inner e) → Barred host start whole w env p e

/-- What holds of the scopes whenever the evaluation of `whole` comes to an expression in an
environment, or to the tree of it. -/
structure Throughout (host : Host σ) (start : Environment) (whole : Value) (w : World σ)
    (env : Environment) (e : Value) (P : Scopes → Prop) : Prop where
  resolving : ∀ {w'}, host.Comes start whole w (.resolves env e) w' → P w'.scopes
  evaluating : ∀ {t w'}, host.Comes start whole w (.evaluates env e t) w' → P w'.scopes

/-- The evaluation of `whole` comes to an expression, and to its tree unless it stalls. -/
def Meets (host : Host σ) (start : Environment) (whole : Value) (w : World σ) (env : Environment)
    (e : Value) : Prop :=
  ∃ w₁, host.Comes start whole w (.resolves env e) w₁ ∧
    (host.Stalls start whole w env e ∨ ∃ t w', host.Comes start whole w (.evaluates env e t) w')

/-- What stands in a place is met with the form, unless it is barred. -/
def LeadsIn (host : Host σ) (start : Environment) (whole : Value) (w : World σ) (env : Environment)
    (p : Place) (e : Value) : Prop :=
  host.Meets start whole w env (p.fill e) →
    (∃ scope, host.Meets start whole w scope e) ∨ host.Barred start whole w env p e

end Host

/-! ### What the forms expand into -/

/-- A binding list is refused or read, whatever the expression of a binding is. -/
theorem Binding.readAll_around (before : List Value) (name : Value) (after : List Value) :
    (∀ e, ∃ error, readAll (.list (before ++ .list [name, e] :: after)) = .error error) ∨
      ∃ front back, ∀ e, readAll (.list (before ++ .list [name, e] :: after)) =
        .ok (front ++ ⟨name, e⟩ :: back) := by
  have parts (e : Value) : readAll (.list (before ++ .list [name, e] :: after)) = (do
      let front ← before.mapM read
      let b ← read (.list [name, e])
      let back ← after.mapM read
      return front ++ b :: back) := by
    show (before ++ .list [name, e] :: after).mapM read = _
    simp only [List.mapM_append, List.mapM_cons, bind_assoc, pure_bind]
  have one (e : Value) : read (.list [name, e]) = if isNameLike name then .ok ⟨name, e⟩ else
      .error (Fault.evaluation (.malformedBinding (.list [name, e]))) := rfl
  cases first : before.mapM read with
  | error error => exact Or.inl fun e => ⟨error, by rw [parts, first]; rfl⟩
  | ok front =>
    by_cases nameLike : isNameLike name
    · cases last : after.mapM read with
      | error error =>
        exact Or.inl fun e => ⟨error, by rw [parts, first, one, if_pos nameLike, last]; rfl⟩
      | ok back =>
        exact Or.inr ⟨front, back, fun e => by rw [parts, first, one, if_pos nameLike, last]; rfl⟩
    · exact Or.inl fun e => ⟨_, by rw [parts, first, one, if_neg nameLike]; rfl⟩

namespace Place

variable {before after : List Value} {inside : Place → Prop}

theorem inherent_operand {operator : Value} (computed : operator.IsComputed) :
    (operand operator before after).Inherent :=
  ⟨trivial, fun _ _ => Or.inl computed⟩

/-- The expression of a binding becomes an operand of the function. -/
theorem parallelLet_init (front back : List Binding) (name : Value) (forms : List Value) :
    Around Inherent fun e => Library.parallelLet (front ++ ⟨name, e⟩ :: back) forms := by
  let names := front.map (·.name) ++ name :: back.map (·.name)
  refine ⟨[operand (Library.lambda (Library.self :: names) forms)
    (Library.self :: front.map (·.init)) (back.map (·.init))], fun e => ?_, ?_⟩
  · simp [Library.parallelLet, fillAll, fill, names]
  · exact List.forall_mem_singleton.mpr (inherent_operand ⟨_, _, rfl⟩)

/-- A form of the body stays one of the function. -/
theorem parallelLet_body (bindings : List Binding) :
    Around Inherent fun e => Library.parallelLet bindings (before ++ e :: after) :=
  ⟨[applied (bindings.map (·.name)) (bindings.map (·.init)) before after], fun _ => rfl,
    List.forall_mem_singleton.mpr ⟨trivial, fun _ _ => trivial⟩⟩

/-- By induction on the bindings in front: the form that binds the first of them has the others in its
body. -/
theorem serialLet_init (front back : List Binding) (name : Value) (forms : List Value) :
    Around InLet fun e => Library.serialLet (front ++ ⟨name, e⟩ :: back) forms := by
  induction front with
  | nil =>
    have inLet (forms : List Value) :
        ∀ q ∈ [init .parallelLet (.expander .parallelLet) [] name [] forms], q.InLet :=
      List.forall_mem_singleton.mpr ⟨rfl, rfl⟩
    by_cases more : back = []
    · subst more
      exact ⟨_, fun e => rfl, inLet forms⟩
    · exact ⟨[init .parallelLet (.expander .parallelLet) [] name [] [Library.serialLet back forms]],
        fun _ => Host.serialLet_cons more, inLet _⟩
  | cons b bs ih =>
    obtain ⟨qs, filled, inLet⟩ := ih
    refine ⟨body .parallelLet (.expander .parallelLet) (.list [b.toValue]) [] [] :: qs,
      fun e => ?_, List.forall_mem_cons.mpr ⟨⟨rfl, rfl⟩, inLet⟩⟩
    calc Library.serialLet (b :: (bs ++ ⟨name, e⟩ :: back)) forms
      _ = Library.letForm [b] [Library.serialLet (bs ++ ⟨name, e⟩ :: back) forms] :=
        Host.serialLet_cons (by simp)
      _ = Library.letForm [b] [fillAll qs e] := by rw [← filled]

/-- By induction on the bindings: each form has the next one in its body, and the last one the forms. -/
theorem serialLet_body (bindings : List Binding) :
    Around InLet fun e => Library.serialLet bindings (before ++ e :: after) := by
  have last (bs : List Value) :
      ∀ q ∈ [body .parallelLet (.expander .parallelLet) (.list bs) before after], q.InLet :=
    List.forall_mem_singleton.mpr ⟨rfl, rfl⟩
  induction bindings with
  | nil => exact ⟨_, fun e => rfl, last []⟩
  | cons b bs ih =>
    by_cases more : bs = []
    · subst more
      exact ⟨_, fun e => rfl, last [b.toValue]⟩
    · obtain ⟨qs, filled, inLet⟩ := ih
      refine ⟨body .parallelLet (.expander .parallelLet) (.list [b.toValue]) [] [] :: qs,
        fun e => ?_, List.forall_mem_cons.mpr ⟨⟨rfl, rfl⟩, inLet⟩⟩
      calc Library.serialLet (b :: bs) (before ++ e :: after)
        _ = Library.letForm [b] [Library.serialLet bs (before ++ e :: after)] :=
          Host.serialLet_cons more
        _ = Library.letForm [b] [fillAll qs e] := by rw [← filled]

/-- The binding forms, by what they make of the bindings that are read. -/
theorem unfolds_init {x : Expander} {build : List Binding → List Value → Value} {name : Value}
    {forms : List Value}
    (expands : ∀ bs, x.expand? (bs :: forms) = some do return build (← Binding.readAll bs) forms)
    (around : ∀ front back, Around inside fun e => build (front ++ ⟨name, e⟩ :: back) forms) :
    Unfolds x (fun e => .list (before ++ .list [name, e] :: after) :: forms) inside := by
  rcases Binding.readAll_around before name after with refused | ⟨front, back, read⟩
  · refine Or.inl fun e => ?_
    obtain ⟨error, read⟩ := refused e
    exact ⟨error, by rw [expands, read]; rfl⟩
  · exact Or.inr ⟨_, fun e => by rw [expands, read]; rfl, around front back⟩

theorem unfolds_body {x : Expander} {build : List Binding → List Value → Value} {bindings : Value}
    (expands : ∀ forms, x.expand? (bindings :: forms) = some do
      return build (← Binding.readAll bindings) forms)
    (around : ∀ bs, Around inside fun e => build bs (before ++ e :: after)) :
    Unfolds x (fun e => bindings :: (before ++ e :: after)) inside := by
  cases read : Binding.readAll bindings with
  | error error => exact Or.inl fun e => ⟨error, by rw [expands, read]; rfl⟩
  | ok bs => exact Or.inr ⟨_, fun e => by rw [expands, read]; rfl, around bs⟩

/-- By induction on the operands in front: the first one is a test, with the others in its branch. -/
theorem conjunction_operand (before : List Value) :
    Around Inherent fun e => Library.conjunction (before ++ e :: after) := by
  induction before with
  | nil =>
    cases after with
    | nil => exact ⟨[], fun _ => rfl, List.forall_mem_nil _⟩
    | cons e' more =>
      refine ⟨[test (.form .conditional) (Library.conjunction (e' :: more)) (some .nil)],
        fun e => Host.conjunction_next e e' more, ?_⟩
      exact List.forall_mem_singleton.mpr ⟨trivial, fun _ _ => rfl⟩
  | cons c before ih =>
    obtain ⟨qs, filled, inherent⟩ := ih
    refine ⟨consequent (.form .conditional) c (some .nil) :: qs, fun e => ?_,
      List.forall_mem_cons.mpr ⟨⟨trivial, fun _ _ => rfl⟩, inherent⟩⟩
    show _ = Library.apply (.form .conditional) [c, fillAll qs e, .nil]
    rw [← filled]
    cases before with
    | nil => exact Host.conjunction_next c e after
    | cons c' before => exact Host.conjunction_next c c' (before ++ e :: after)

/-- By induction on the operands in front: behind the first one stand the others. -/
theorem disjunction_operand (before : List Value) :
    Around Inherent fun e => Library.disjunction (before ++ e :: after) := by
  induction before with
  | nil =>
    cases after with
    | nil => exact ⟨[], fun _ => rfl, List.forall_mem_nil _⟩
    | cons e' more =>
      refine ⟨[operand _ [Library.self]
          [Library.lambda [Library.self] [Library.disjunction (e' :: more)]]],
        fun e => Host.disjunction_next e e' more, ?_⟩
      exact List.forall_mem_singleton.mpr (inherent_operand ⟨_, _, rfl⟩)
  | cons c before ih =>
    obtain ⟨qs, filled, inherent⟩ := ih
    refine ⟨others c :: qs, fun e => ?_,
      List.forall_mem_cons.mpr ⟨⟨trivial, fun _ _ => trivial⟩, inherent⟩⟩
    show _ = Library.choice c (fillAll qs e)
    rw [← filled]
    cases before with
    | nil => exact Host.disjunction_next c e after
    | cons c' before => exact Host.disjunction_next c c' (before ++ e :: after)

end Place

namespace Host

variable {host : Host σ} {start env : Environment} {whole own F G operator : Value}
variable {before after : List Value} {w w' : World σ}

/-! ### What the trees look like -/

theorem Resolves.tree_function {e : Value} {c : Callable} {tree : Resolved}
    (resolved : w.scopes.operator env operator = .ok c) (function : c.IsFunction)
    (resolves : host.Resolves env (Library.apply operator (before ++ e :: after)) w (.ok tree) w') :
    ∃ ts u us origin, ts.length = before.length ∧
      tree = .application (.callable c) (ts ++ u :: us) origin := by
  obtain ⟨all, operands, same⟩ := (resolves_function resolved function).mp resolves
  cases all with
  | error f => cases same
  | ok trees =>
    cases same
    obtain ⟨ts, us, w₁, last, first, rfl⟩ := operands.of_ok_append
    rcases resolvesAll_cons.mp last with ⟨f, -, same⟩ | ⟨vs, w₂, one, -, -, same⟩
    · cases same
    · cases one with
      | error f => cases same
      | ok u =>
        cases same
        exact ⟨ts, u, vs, _, first.length rfl, rfl⟩

theorem Resolves.tree_conditional {c t : Value} {other : Option Value} {tree : Resolved}
    (resolved : w.scopes.operator env operator = .ok (.form .conditional))
    (resolves : host.Resolves env (Library.apply operator (c :: t :: other.toList)) w (.ok tree) w') :
    ∃ u, tree = .conditional env (c :: t :: other.toList) t (other.getD .nil) u := by
  rcases (resolves_operator resolved).mp resolves with ⟨-, applies⟩ | ⟨-, same, -⟩
  · generalize ended : (Except.ok tree : Except Fault Resolved) = r at applies
    have shape : ∃ first : Except Fault Resolved,
        r = first.map (.conditional env (c :: t :: other.toList) t (other.getD .nil)) := by
      cases other with
      | none =>
        cases applies with
        | choice => exact ⟨_, rfl⟩
      | some e =>
        cases applies with
        | fullChoice => exact ⟨_, rfl⟩
    obtain ⟨first, rfl⟩ := shape
    cases first with
    | error f => cases ended
    | ok u =>
      cases ended
      exact ⟨u, rfl⟩
  · cases same

theorem Resolves.tree_sequence {e : Value} {es : List Value} {tree : Resolved}
    (resolved : w.scopes.operator env operator = .ok (.form .sequence))
    (resolves : host.Resolves env (Library.apply operator (e :: es)) w (.ok tree) w') :
    ∃ u, tree = .sequence env e es u := by
  rcases (resolves_operator resolved).mp resolves with ⟨-, applies⟩ | ⟨-, same, -⟩
  · generalize ended : (Except.ok tree : Except Fault Resolved) = r at applies
    cases applies with
    | @sequence _ _ _ _ _ one =>
      cases one with
      | error f => cases ended
      | ok u =>
        cases ended
        exact ⟨u, rfl⟩
  · cases same

/-- The parameters have been read, or there would be no function. -/
theorem Resolves.tree_applied {params operands body : List Value} {tree : Resolved}
    (resolves : host.Resolves env (Library.apply (Library.lambda params body) operands) w (.ok tree)
      w') :
    ∃ l identity ts origin, LambdaList.read (.list params) = .ok l ∧
      tree = .application (.callable (.native (.primitive .call))) (.value (.callable (.closure
        ⟨identity, l.params, l.rest, Engine.bodyOf body, env⟩)) :: ts) origin := by
  rcases resolves_applied.mp resolves with ⟨f, -, same⟩ | ⟨ts, w₁, -, -, same⟩
  · cases same
  · unfold Closure.make at same
    cases read : LambdaList.read (.list params) with
    | error e =>
      rw [read] at same
      cases same
    | ok l =>
      rw [read] at same
      cases same
      exact ⟨l, _, ts, _, rfl, rfl⟩

/-- The operands of the function that looks at the value of an operand of `or`. -/
theorem Resolves.tree_choice {e rest : Value} {tree : Resolved}
    (lasts : ∀ {t w₁}, host.Resolves env e w.identified (.ok t) w₁ →
      w₁.scopes.get? env Symbol.selfName = some own)
    (resolves : host.Resolves env (Library.choice e rest) w (.ok tree) w') :
    ∃ looking u identity origin, tree = .application (.callable (.native (.primitive .call)))
      [.value (.callable (.closure (.looking looking env))), .value own, u,
        .value (.callable (.closure ⟨identity, [Symbol.selfName], .ignored, rest, env⟩))] origin := by
  rcases resolves_applied.mp resolves with ⟨f, -, same⟩ | ⟨ts, w₁, operands, -, same⟩
  · cases same
  · rcases (resolvesAll_choice rest lasts).mp operands with ⟨f, -, failed⟩ | ⟨u, -, trees⟩
    · cases failed
    · cases trees
      cases same
      exact ⟨_, u, _, _, rfl⟩

/-! ### From a form to what stands in it -/

/-- When the tree of a form was made, the operator stood for what it stands for now. -/
theorem Comes.resolved (writes : host.Writes roots False keeps)
    (situated : w.Situates roots keeps own start whole) {operands : List Value} {tree : Resolved}
    {c : Callable}
    (comes : host.Comes start whole w (.evaluates env (Library.apply operator operands) tree) w')
    (found : w'.scopes.operator env operator = .ok c) :
    ∃ w₁ w₂, host.Resolves env (Library.apply operator operands) w₁ (.ok tree) w₂ ∧
      w₁.scopes.operator env operator = .ok c := by
  obtain ⟨w₁, w₂, -, resolves, -, resolved⟩ :=
    (comes.situated writes situated).resolved writes found
  exact ⟨w₁, w₂, resolves, resolved⟩

namespace Throughout

variable {e : Value} {P Q : Scopes → Prop}

theorem always (all : ∀ scopes, P scopes) : host.Throughout start whole w env e P where
  resolving _ := all _
  evaluating _ := all _

theorem imp (throughout : host.Throughout start whole w env e P)
    (implies : ∀ {scopes}, P scopes → Q scopes) : host.Throughout start whole w env e Q where
  resolving comes := implies (throughout.resolving comes)
  evaluating comes := implies (throughout.evaluating comes)

end Throughout

theorem meets_of_begins
    (begins : ∀ {p w₁}, host.Begins env F w' p w₁ → host.Comes start whole w p w₁) :
    host.Meets start whole w env F := by
  refine ⟨w', begins .resolves, ?_⟩
  by_cases resolves : ∃ t w₁, host.Resolves env F w' (.ok t) w₁
  · obtain ⟨t, w₁, resolves⟩ := resolves
    exact Or.inr ⟨t, w₁, begins (.evaluates resolves)⟩
  · exact Or.inl (.unresolved (begins .resolves) resolves)

namespace Meets

/-- What an expression is replaced by is met with it. -/
theorem replaced (meets : host.Meets start whole w env F)
    (replaces : host.Throughout start whole w env F (·.Replaces env F G)) :
    host.Meets start whole w env G := by
  obtain ⟨w', comes, next⟩ := meets
  refine ⟨w', .descends comes (.replaced (replaces.resolving comes)), ?_⟩
  refine next.imp (.replaced comes (replaces.resolving comes)) ?_
  rintro ⟨t, w'', comes⟩
  exact ⟨t, w'', .descends comes (.replacedTree (replaces.evaluating comes))⟩

/-- By induction on the places: what they lead to one after the other is met, unless it is barred at one
of them. -/
theorem along {places : List Place} {e : Value}
    (leads : ∀ {place inner env'}, place :: inner <:+ places →
      host.LeadsIn start whole w env' place (Place.fillAll inner e))
    (meets : host.Meets start whole w env (Place.fillAll places e)) :
    (∃ scope, host.Meets start whole w scope e) ∨ ∃ place inner env', place :: inner <:+ places ∧
      host.Barred start whole w env' place (Place.fillAll inner e) := by
  induction places generalizing env with
  | nil => exact Or.inl ⟨env, meets⟩
  | cons outer places ih =>
    have within := List.suffix_cons outer places
    rcases leads List.suffix_rfl meets with ⟨scope, inside⟩ | barred
    · refine (ih (fun suffix => leads (suffix.trans within)) inside).imp_right ?_
      rintro ⟨place, inner, env', suffix, barred⟩
      exact ⟨place, inner, env', suffix.trans within, barred⟩
    · exact Or.inr ⟨outer, places, env, List.suffix_rfl, barred⟩

variable (writes : host.Writes roots False keeps)
variable (situated : w.Situates roots keeps own start whole)

include writes situated

/-- The tree of a choice has the tree of the test. -/
theorem conditional {c t : Value} {other : Option Value}
    (meets : host.Meets start whole w env (Library.apply operator (c :: t :: other.toList)))
    (conditional : host.Throughout start whole w env
      (Library.apply operator (c :: t :: other.toList))
      (·.operator env operator = .ok (.form .conditional))) :
    host.Stalls start whole w env (Library.apply operator (c :: t :: other.toList)) ∨
      ∃ u w', host.Comes start whole w (.evaluates env
        (Library.apply operator (c :: t :: other.toList))
        (.conditional env (c :: t :: other.toList) t (other.getD .nil) u)) w' := by
  obtain ⟨-, -, stalls | ⟨tree, w', comes⟩⟩ := meets
  · exact Or.inl stalls
  obtain ⟨w₁, w₂, resolves, resolved⟩ :=
    comes.resolved writes situated (conditional.evaluating comes)
  obtain ⟨u, rfl⟩ := resolves.tree_conditional resolved
  exact Or.inr ⟨u, w', comes⟩

/-- The tree of a sequence has the tree of the first expression. -/
theorem sequence {e : Value} {es : List Value}
    (meets : host.Meets start whole w env (Library.apply operator (e :: es)))
    (sequence : host.Throughout start whole w env (Library.apply operator (e :: es))
      (·.operator env operator = .ok (.form .sequence))) :
    host.Stalls start whole w env (Library.apply operator (e :: es)) ∨
      ∃ u w', host.Comes start whole w (.evaluates env (Library.apply operator (e :: es))
        (.sequence env e es u)) w' := by
  obtain ⟨-, -, stalls | ⟨tree, w', comes⟩⟩ := meets
  · exact Or.inl stalls
  obtain ⟨w₁, w₂, resolves, resolved⟩ :=
    comes.resolved writes situated (sequence.evaluating comes)
  obtain ⟨u, rfl⟩ := resolves.tree_sequence resolved
  exact Or.inr ⟨u, w', comes⟩

end Meets

namespace LeadsIn

variable {p : Place}

/-- What stands in the form that a form is replaced by is met with the form. -/
theorem replaced {qs : List Place} (replaces : host.Throughout start whole w env (p.fill F)
      fun scopes => ∀ e, scopes.Replaces env (p.fill e) (Place.fillAll qs e))
    (leads : ∀ q ∈ qs, ∀ env e, host.LeadsIn start whole w env q e) :
    host.LeadsIn start whole w env p F := by
  intro meets
  have ⟨w', comes, _⟩ := meets
  have inside := meets.replaced (replaces.imp fun all => all F)
  refine (inside.along fun suffix => leads _ (suffix.subset List.mem_cons_self) _ _).imp_right ?_
  rintro ⟨q, inner, env', suffix, barred⟩
  exact .replaced comes (replaces.resolving comes) suffix barred

theorem unfolds {x : Expander} {operands : Value → List Value} {inside : Place → Prop}
    (unfolds : Place.Unfolds x operands inside)
    (shape : ∀ e, p.fill e = Library.apply operator (operands e))
    (expander : host.Throughout start whole w env (p.fill F)
      (·.operator env operator = .ok (.expander x)))
    (leads : ∀ q, inside q → ∀ env e, host.LeadsIn start whole w env q e) :
    host.LeadsIn start whole w env p F := by
  rcases unfolds with refused | ⟨form, expands, qs, filled, all⟩
  · rintro ⟨w', comes, -⟩
    obtain ⟨error, refused⟩ := refused F
    exact Or.inr (.refused comes (shape F) (expander.resolving comes) refused)
  · refine replaced (expander.imp fun found e => ?_) fun q member => leads q (all q member)
    rw [shape, ← filled]
    exact .expands found (expands e)

/-- The branch that a test leads to is met. -/
theorem branch {t e : Value} {operands : List Value} {u : Resolved} (side : Bool)
    (comes : host.Comes start whole w (.evaluates env (Library.apply operator operands)
      (.conditional env operands t e u)) w')
    (found : w'.scopes.operator env operator = .ok (.form .conditional)) :
    (∃ scope, host.Meets start whole w scope (if side then t else e)) ∨
      ¬ ∃ v w'', host.Evaluates u w' (.ok v) w'' ∧ v.isTrue = side := by
  by_cases test : ∃ v w'', host.Evaluates u w' (.ok v) w'' ∧ v.isTrue = side
  · obtain ⟨v, w'', test, rfl⟩ := test
    exact Or.inl ⟨env, meets_of_begins fun begins => .descends comes (.branch found test begins)⟩
  · exact Or.inr test

variable (writes : host.Writes roots False keeps)
variable (situated : w.Situates roots keeps own start whole)

include writes situated

theorem operand (function : host.Throughout start whole w env
      (Library.apply operator (before ++ F :: after))
      fun scopes => ∃ c, scopes.operator env operator = .ok c ∧ c.IsFunction) :
    host.LeadsIn start whole w env (.operand operator before after) F := by
  rintro ⟨w', comes, next⟩
  obtain ⟨c, found, isFunction⟩ := function.resolving comes
  by_cases behind : ∃ ts w'', host.ResolvesAll env after w' (.ok ts) w''
  · obtain ⟨ts, w'', behind⟩ := behind
    refine Or.inl ⟨env, w'', .descends comes (.operand found isFunction behind), ?_⟩
    rcases next with stalls | ⟨t, w₁, comes⟩
    · exact Or.inl (.withForm (p := .operand operator before after) trivial stalls)
    obtain ⟨c, found, isFunction⟩ := function.evaluating comes
    obtain ⟨w₂, w₃, resolves, resolved⟩ := comes.resolved writes situated found
    obtain ⟨ts, u, us, origin, count, rfl⟩ := resolves.tree_function resolved isFunction
    by_cases front : ∃ vs w'', host.EvaluatesAll ts w₁ (.ok vs) w''
    · obtain ⟨vs, w'', front⟩ := front
      exact Or.inr ⟨u, w'', .descends comes (.operandTree found isFunction count front)⟩
    · exact Or.inl (.inFront comes count front)
  · exact Or.inr (.behind comes behind)

/-- The operator may be computed. -/
theorem called (function : host.Throughout start whole w env
      (Library.apply operator (before ++ F :: after)) fun scopes =>
        operator.IsComputed ∨ ∃ c, scopes.operator env operator = .ok c ∧ c.IsFunction) :
    host.LeadsIn start whole w env (.operand operator before after) F := by
  by_cases computes : operator.IsComputed
  · have replaces : host.Throughout start whole w env
        ((Place.operand operator before after).fill F) fun scopes => ∀ e,
          scopes.Replaces env ((Place.operand operator before after).fill e)
            (Place.fillAll [.operand Engine.callNative (operator :: before) after] e) :=
      .always fun _ _ => .computed computes
    refine replaced replaces (List.forall_mem_singleton.mpr fun env e => ?_)
    exact operand writes situated (.always fun _ => ⟨.native (.primitive .call), rfl, trivial⟩)
  · exact operand writes situated (function.imp (·.resolve_left computes))

theorem test {t : Value} {other : Option Value}
    (conditional : host.Throughout start whole w env
      (Library.apply operator (F :: t :: other.toList))
      (·.operator env operator = .ok (.form .conditional))) :
    host.LeadsIn start whole w env (.test operator t other) F := by
  intro meets
  have ⟨w₁, here, _⟩ := meets
  have few : other.toList.length ≤ 1 := by cases other <;> simp
  refine Or.inl ⟨env, w₁, .descends here (.test (conditional.resolving here) few), ?_⟩
  refine (meets.conditional writes situated conditional).imp
    (.withForm (p := .test operator t other) trivial) ?_
  rintro ⟨u, w', comes⟩
  exact ⟨u, w', .descends comes (.testTree (conditional.evaluating comes))⟩

theorem consequent {c : Value} {other : Option Value}
    (conditional : host.Throughout start whole w env
      (Library.apply operator (c :: F :: other.toList))
      (·.operator env operator = .ok (.form .conditional))) :
    host.LeadsIn start whole w env (.consequent operator c other) F := by
  intro meets
  have ⟨w₁, here, _⟩ := meets
  rcases meets.conditional writes situated conditional with stalls | ⟨u, w', comes⟩
  · exact Or.inr (.stalls trivial here stalls)
  · exact (branch true comes (conditional.evaluating comes)).imp_right (.consequent comes)

theorem alternative {c t : Value}
    (conditional : host.Throughout start whole w env (Library.apply operator [c, t, F])
      (·.operator env operator = .ok (.form .conditional))) :
    host.LeadsIn start whole w env (.alternative operator c t) F := by
  intro meets
  have ⟨w₁, here, _⟩ := meets
  have tree : host.Meets start whole w env (Library.apply operator (c :: t :: (some F).toList)) :=
    meets
  rcases tree.conditional writes situated conditional with stalls | ⟨u, w', comes⟩
  · exact Or.inr (.stalls trivial here stalls)
  · exact (branch false comes (conditional.evaluating comes)).imp_right (.alternative comes)

theorem first {es : List Value}
    (sequence : host.Throughout start whole w env (Library.apply operator (F :: es))
      (·.operator env operator = .ok (.form .sequence))) :
    host.LeadsIn start whole w env (.first operator es) F := by
  intro meets
  have ⟨w₁, here, _⟩ := meets
  refine Or.inl ⟨env, w₁, .descends here (.first (sequence.resolving here)), ?_⟩
  refine (meets.sequence writes situated sequence).imp
    (.withForm (p := .first operator es) trivial) ?_
  rintro ⟨u, w', comes⟩
  exact ⟨u, w', .descends comes (.firstTree (sequence.evaluating comes))⟩

theorem sequel {e : Value}
    (sequence : host.Throughout start whole w env
      (Library.apply operator (e :: (before ++ F :: after)))
      (·.operator env operator = .ok (.form .sequence))) :
    host.LeadsIn start whole w env (.sequel operator e before after) F := by
  intro meets
  have ⟨w₁, here, _⟩ := meets
  rcases meets.sequence writes situated sequence with stalls | ⟨u, w', comes⟩
  · exact Or.inr (.stalls trivial here stalls)
  by_cases front : ∃ v w₁ w'', host.Evaluates u w' (.ok v) w₁ ∧ host.Runs env before w₁ w''
  · obtain ⟨v, w₁, w'', value, runs⟩ := front
    exact Or.inl ⟨env, meets_of_begins fun begins =>
      .descends comes (.later (sequence.evaluating comes) value runs begins)⟩
  · exact Or.inr (.sequel comes front)

/-- The body of a function that is applied at once, as the binding forms are. -/
theorem applied {params inits : List Value} :
    host.LeadsIn start whole w env (.applied params inits before after) F := by
  rintro ⟨w₁, here, stalls | ⟨tree, w', comes⟩⟩
  · exact Or.inr (.stalls trivial here stalls)
  obtain ⟨w₁, w₂, -, resolves, -⟩ := comes.situated writes situated
  obtain ⟨l, identity, ts, origin, read, rfl⟩ := resolves.tree_applied
  by_cases front : ∃ args w₁ scope w₂ w'', host.EvaluatesAll ts w' (.ok args) w₁ ∧
      w₁.openChild env (Table.ofEntries (l.entries args)) = (scope, w₂) ∧
      host.Runs scope before w₂ w''
  · obtain ⟨args, w₁, scope, w₂, w'', values, opened, runs⟩ := front
    exact Or.inl ⟨scope, meets_of_begins fun begins =>
      .descends comes (.body read values opened runs begins)⟩
  · exact Or.inr (.applied comes front)

/-- What stands behind an operand of `or`. -/
theorem others {e : Value} : host.LeadsIn start whole w env (.others e) F := by
  rintro ⟨w₁, here, stalls | ⟨tree, w', comes⟩⟩
  · exact Or.inr (.stalls trivial here stalls)
  obtain ⟨w₁, w₂, stands, resolves, -⟩ := comes.situated writes situated
  have lasts {t : Resolved} {w₃ : World σ}
      (operand : host.Resolves env e w₁.identified (.ok t) w₃) :
      w₃.scopes.get? env Symbol.selfName = some own := by
    have ready := stands.follows (World.Follows.refl stands.sound).identified
    have one := ready.operand e (by simp)
    exact (one.follows (one.resolves writes operand).1).bound
  obtain ⟨looking, u, identity, origin, rfl⟩ := resolves.tree_choice lasts
  by_cases test : ∃ v w'', host.Evaluates u w' (.ok v) w'' ∧ v.isTrue = false
  · obtain ⟨v, w'', evaluates, isNil⟩ := test
    exact Or.inl ⟨_, meets_of_begins fun begins =>
      .descends comes (.others evaluates isNil rfl rfl begins)⟩
  · exact Or.inr (.others comes test)

/-! ### All places -/

theorem plain (isPlain : p.Plain)
    (standard : host.Throughout start whole w env (p.fill F) (p.Standard · env)) :
    host.LeadsIn start whole w env p F := by
  cases p with
  | operand => exact called writes situated standard
  | test => exact test writes situated standard
  | consequent => exact consequent writes situated standard
  | alternative => exact alternative writes situated standard
  | first => exact first writes situated standard
  | sequel => exact sequel writes situated standard
  | applied => exact applied writes situated
  | others => exact others writes situated
  | init | body | conjunct | disjunct => exact isPlain.elim

theorem inherent (q : Place) (inherent : q.Inherent) (env : Environment) (e : Value) :
    host.LeadsIn start whole w env q e :=
  plain writes situated inherent.1 (.always fun scopes => inherent.2 scopes env)

theorem parallelInit {name : Value} {forms : List Value}
    (expander : host.Throughout start whole w env
      ((Place.init .parallelLet operator before name after forms).fill F)
      (·.operator env operator = .ok (.expander .parallelLet))) :
    host.LeadsIn start whole w env (.init .parallelLet operator before name after forms) F :=
  unfolds (Place.unfolds_init (fun _ => rfl) fun front back =>
    Place.parallelLet_init front back name forms) (fun _ => rfl) expander (inherent writes situated)

theorem parallelBody {bindings : Value}
    (expander : host.Throughout start whole w env
      ((Place.body .parallelLet operator bindings before after).fill F)
      (·.operator env operator = .ok (.expander .parallelLet))) :
    host.LeadsIn start whole w env (.body .parallelLet operator bindings before after) F :=
  unfolds (Place.unfolds_body (fun _ => rfl) Place.parallelLet_body) (fun _ => rfl) expander
    (inherent writes situated)

theorem inLet (q : Place) (inLet : q.InLet) (env : Environment) (e : Value) :
    host.LeadsIn start whole w env q e := by
  cases q with
  | init =>
    obtain ⟨rfl, rfl⟩ := inLet
    exact parallelInit writes situated (.always fun _ => rfl)
  | body =>
    obtain ⟨rfl, rfl⟩ := inLet
    exact parallelBody writes situated (.always fun _ => rfl)
  | _ => exact inLet.elim

theorem place (standard : host.Throughout start whole w env (p.fill F) (p.Standard · env)) :
    host.LeadsIn start whole w env p F := by
  cases p with
  | init x operator before name after forms =>
    intro meets
    have ⟨_, comes, _⟩ := meets
    have expander := standard.imp (·.1)
    rcases (standard.resolving comes).2 with rfl | rfl
    · exact parallelInit writes situated expander meets
    · exact unfolds (Place.unfolds_init (fun _ => rfl) fun front back =>
        Place.serialLet_init front back name forms) (fun _ => rfl) expander
        (inLet writes situated) meets
  | body x operator bindings before after =>
    intro meets
    have ⟨_, comes, _⟩ := meets
    have expander := standard.imp (·.1)
    rcases (standard.resolving comes).2 with rfl | rfl
    · exact parallelBody writes situated expander meets
    · exact unfolds (Place.unfolds_body (fun _ => rfl) Place.serialLet_body) (fun _ => rfl)
        expander (inLet writes situated) meets
  | conjunct operator before after =>
    exact unfolds (Or.inr ⟨_, fun _ => rfl, Place.conjunction_operand before⟩) (fun _ => rfl)
      standard (inherent writes situated)
  | disjunct operator before after =>
    exact unfolds (Or.inr ⟨_, fun _ => rfl, Place.disjunction_operand before⟩) (fun _ => rfl)
      standard (inherent writes situated)
  | _ => exact plain writes situated trivial standard

end LeadsIn

/-- Every expression has its turn. Where one stands in standard forms at any depth, the evaluation comes
to it, unless it is barred at one of its places: what has its turn before does not end with a value, or
a test leads past it. There the name of the running closure stands for what it stands for outside. -/
theorem comes_or_barred {places : List Place} {e : Value} (writes : host.Writes roots False keeps)
    (situated : w.Situates roots keeps own env (Place.fillAll places e))
    (standard : ∀ {place inner env'}, place :: inner <:+ places →
      host.Throughout env (Place.fillAll places e) w env' (place.fill (Place.fillAll inner e))
        (place.Standard · env')) :
    (∃ env' w', host.Comes env (Place.fillAll places e) w (.resolves env' e) w' ∧
        w'.scopes.get? env' Symbol.selfName = some own) ∨
      ∃ place inner env', place :: inner <:+ places ∧
        host.Barred env (Place.fillAll places e) w env' place (Place.fillAll inner e) := by
  have outermost : host.Meets env (Place.fillAll places e) w env (Place.fillAll places e) :=
    meets_of_begins .begins
  have met := outermost.along fun suffix => LeadsIn.place writes situated (standard suffix)
  refine met.imp_left ?_
  rintro ⟨scope, w', comes, -⟩
  exact ⟨scope, w', comes, (comes.situated writes situated).bound⟩

/-- The name at the bottom of the nested expression, by its places. -/
example : Place.fillAll [.disjunct (.expander .disjunction) [.nil] [],
    .body .parallelLet (.expander .parallelLet) (.list [.list [.symbol "a", .truth]]) [] []]
    Library.self = Extension.nested := rfl

end Host

end CooperativeLisp

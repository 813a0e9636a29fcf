import CooperativeLisp.Extension
import CooperativeLisp.Proofs.Adequate
import CooperativeLisp.Proofs.Inversion
import CooperativeLisp.Proofs.Lasting

/-!
The meaning of the binding forms. They are expanded into functions that are applied at once, which
take the running closure besides the names. Main statement: whatever the names of the environment
stand for, `let` evaluates its expressions there and its body where just the names are bound to the
values, `let*` is `let` inside of `let`, and the running closure is the same throughout.
-/

namespace CooperativeLisp

variable {σ : Type}

/-- Names that may be bound together: they are distinct, and none of them is a marker or the name of
the running closure. -/
structure Symbol.Bindable (names : List String) : Prop where
  distinct : names.Nodup
  free : ∀ name ∈ names, Symbol.isReserved name = false
  other : Symbol.selfName ∉ names

/-- A binding as it is written. -/
def Binding.written (b : String × Value) : Value :=
  .list [.symbol b.1, b.2]

/-- A binding form as it is written. -/
def Library.binding (operator : Value) (bindings : List (String × Value)) (body : List Value) :
    Value :=
  apply operator (.list (bindings.map Binding.written) :: body)

namespace Host

variable {host : Host σ} {env : Environment} {e operator : Value} {es body : List Value}
variable {bindings : List (String × Value)} {names : List String} {w w' w₁ : World σ}

/-! ### What the forms should mean -/

/-- The results of evaluating an expression, where only the cause of a failure counts. -/
def EndsWith (host : Host σ) (env : Environment) (e : Value) (cap : BacktraceCap) (w : World σ)
    (r : Except Fault Value) (w' : World σ) : Prop :=
  ∃ r', host.Answers (·.evaluateOnce env e cap) w r' w' ∧ r'.mapError Error.fault = r

/-- The operands of an application are resolved, the last one first, and then evaluated, the first
one first, until one of them fails. -/
inductive Lists (host : Host σ) (env : Environment) (es : List Value) (w : World σ) :
    Except Fault (List Value) → World σ → Prop
  | unresolved {f : Fault} {w' : World σ} : host.ResolvesAll env es w (.error f) w' →
      Lists host env es w (.error f) w'
  | evaluated {ts : List Resolved} {r : Except Fault (List Value)} {w₁ w' : World σ} :
      host.ResolvesAll env es w (.ok ts) w₁ → host.EvaluatesAll ts w₁ r w' →
      Lists host env es w r w'

/-- The forms of a body are evaluated one after the other. The value is that of the last one, or nil
if there are none. -/
inductive InTurn (host : Host σ) (env : Environment) :
    List Value → World σ → Except Fault Value → World σ → Prop
  | none {w : World σ} : InTurn host env [] w (.ok .nil) w
  | last {e : Value} {r : Except Fault Value} {w w' : World σ} :
      host.Direct env e w r w' → InTurn host env [e] w r w'
  | fails {e e' : Value} {more : List Value} {f : Fault} {w w' : World σ} :
      host.Direct env e w (.error f) w' → InTurn host env (e :: e' :: more) w (.error f) w'
  | next {e e' v : Value} {more : List Value} {r : Except Fault Value} {w w₁ w' : World σ} :
      host.Direct env e w (.ok v) w₁ → InTurn host env (e' :: more) w₁ r w' →
      InTurn host env (e :: e' :: more) w r w'

/-- Names are bound at once. Their expressions are resolved and evaluated in the environment, as
operands are, and what stands inside is evaluated in a new scope of it that binds the names to the
values and, besides them, the name of the running closure to what it stands for outside. An identity
is used up between the two, as that of a function. -/
inductive Lets (host : Host σ) (env : Environment) (bindings : List (String × Value))
    (inside : Environment → World σ → Except Fault Value → World σ → Prop) (w : World σ) :
    Except Fault Value → World σ → Prop
  | unresolved {f : Fault} {w' : World σ} :
      host.ResolvesAll env (bindings.map (·.2)) w (.error f) w' →
      Lets host env bindings inside w (.error f) w'
  | fails {ts : List Resolved} {f : Fault} {w₁ w' : World σ} :
      host.ResolvesAll env (bindings.map (·.2)) w (.ok ts) w₁ →
      host.EvaluatesAll ts w₁.identified (.error f) w' →
      Lets host env bindings inside w (.error f) w'
  | binds {ts : List Resolved} {own : Value} {vs : List Value} {r : Except Fault Value}
      {scope : Environment} {w₁ w₂ w₃ w' : World σ} :
      host.ResolvesAll env (bindings.map (·.2)) w (.ok ts) w₁ →
      w₁.scopes.get? env Symbol.selfName = some own →
      host.EvaluatesAll ts w₁.identified (.ok vs) w₂ →
      w₂.openChild env
        (Table.ofEntries ((Symbol.selfName, own) :: (bindings.map (·.1)).zip vs)) = (scope, w₃) →
      inside scope w₃ r w' → Lets host env bindings inside w r w'

/-- Names are bound one after the other, each inside of the scope of those before it. With no names
at all there is one scope nevertheless. -/
def LetsInTurn (host : Host σ) (body : List Value) :
    List (String × Value) → Environment → World σ → Except Fault Value → World σ → Prop
  | [], env => host.Lets env [] fun scope => host.InTurn scope body
  | [b], env => host.Lets env [b] fun scope => host.InTurn scope body
  | b :: bs, env => host.Lets env [b] (LetsInTurn host body bs)

/-! ### Bodies -/

/-- The tree of an expression that waits for the value of the one before it. -/
theorem evaluates_sequel {t : Resolved} {origin : Value} {r : Except Fault Value} :
    host.Evaluates (.application (.sequel env e) [t] origin) w r w' ↔
      (∃ f, host.Evaluates t w (.error f) w' ∧ r = .error f) ∨
        ∃ v w₁, host.Evaluates t w (.ok v) w₁ ∧ host.Direct env e w₁ r w' := by
  rw [evaluates_application]
  constructor
  · rintro (⟨f, all, rfl⟩ | ⟨args, w₁, all, operates⟩)
    · obtain ⟨first, evaluates, same⟩ := evaluatesAll_single.mp all
      cases first with
      | error f' =>
        cases same
        exact Or.inl ⟨f, evaluates, rfl⟩
      | ok v => cases same
    · obtain ⟨first, evaluates, same⟩ := evaluatesAll_single.mp all
      cases first with
      | error f' => cases same
      | ok v => exact Or.inr ⟨v, w₁, evaluates, operates_sequel.mp operates⟩
  · rintro (⟨f, evaluates, rfl⟩ | ⟨v, w₁, evaluates, direct⟩)
    · exact Or.inl ⟨f, .fails evaluates, rfl⟩
    · exact Or.inr ⟨[v], w₁, .single evaluates, operates_sequel.mpr direct⟩

theorem InTurn.iff_direct {r : Except Fault Value} :
    host.InTurn env [e] w r w' ↔ host.Direct env e w r w' := by
  constructor
  · intro inTurn
    cases inTurn with
    | last direct => exact direct
  · exact .last

theorem InTurn.cons_iff {e' : Value} {more : List Value} {r : Except Fault Value} :
    host.InTurn env (e :: e' :: more) w r w' ↔
      (∃ f, host.Direct env e w (.error f) w' ∧ r = .error f) ∨
        ∃ v w₁, host.Direct env e w (.ok v) w₁ ∧ host.InTurn env (e' :: more) w₁ r w' := by
  constructor
  · intro inTurn
    cases inTurn with
    | fails direct => exact Or.inl ⟨_, direct, rfl⟩
    | next direct rest => exact Or.inr ⟨_, _, direct, rest⟩
  · rintro (⟨f, direct, rfl⟩ | ⟨v, w₁, direct, rest⟩)
    · exact .fails direct
    · exact .next direct rest

/-- The tree of a sequence, by induction on the expressions that wait. -/
theorem evaluates_sequence {t : Resolved} {origin : Value} {more : List Value}
    {r : Except Fault Value} :
    host.Evaluates (more.foldl (fun t next => .application (.sequel env next) [t] origin)
        (.application (.sequel env e) [t] origin)) w r w' ↔
      (∃ f, host.Evaluates t w (.error f) w' ∧ r = .error f) ∨
        ∃ v w₁, host.Evaluates t w (.ok v) w₁ ∧ host.InTurn env (e :: more) w₁ r w' := by
  induction more generalizing t e with
  | nil =>
    rw [List.foldl_nil, evaluates_sequel]
    simp only [InTurn.iff_direct]
  | cons e' more ih =>
    rw [List.foldl_cons, ih]
    simp only [InTurn.cons_iff, evaluates_sequel]
    constructor
    · rintro (⟨f, ⟨f', failed, same⟩ | ⟨v, w₁, first, second⟩, rfl⟩ |
        ⟨u, w₂, ⟨f, -, same⟩ | ⟨v, w₁, first, second⟩, rest⟩)
      · cases same
        exact Or.inl ⟨f, failed, rfl⟩
      · exact Or.inr ⟨v, w₁, first, Or.inl ⟨f, second, rfl⟩⟩
      · cases same
      · exact Or.inr ⟨v, w₁, first, Or.inr ⟨u, w₂, second, rest⟩⟩
    · rintro (⟨f, failed, rfl⟩ | ⟨v, w₁, first, ⟨f, second, rfl⟩ | ⟨u, w₂, second, rest⟩⟩)
      · exact Or.inl ⟨f, Or.inl ⟨f, failed, rfl⟩, rfl⟩
      · exact Or.inl ⟨f, Or.inr ⟨v, w₁, first, second⟩, rfl⟩
      · exact Or.inr ⟨u, w₂, Or.inr ⟨v, w₁, first, second⟩, rest⟩

/-- The body of a function is its forms in turn. -/
theorem direct_bodyOf {r : Except Fault Value} :
    host.Direct env (Engine.bodyOf body) w r w' ↔ host.InTurn env body w r w' := by
  match body with
  | [] =>
    constructor
    · intro direct
      cases direct with
      | fails resolves => cases resolves
      | evaluates resolves evaluates =>
        cases resolves
        cases evaluates
        exact .none
    · intro inTurn
      cases inTurn
      exact .evaluates (.atom trivial) .value
  | [e] => exact InTurn.iff_direct.symm
  | e :: e' :: more =>
    show host.Direct env (Library.apply (.form .sequence) (e :: e' :: more)) w r w' ↔ _
    rw [InTurn.cons_iff, direct_iff]
    simp only [resolves_sequence]
    constructor
    · rintro (⟨f, ⟨first, resolves, same⟩, rfl⟩ | ⟨t, w₁, ⟨first, resolves, same⟩, evaluates⟩)
      · cases first with
        | error f' =>
          cases same
          exact Or.inl ⟨f, .fails resolves, rfl⟩
        | ok t => cases same
      · cases first with
        | error f' => cases same
        | ok t =>
          cases same
          rcases evaluates_sequence.mp evaluates with ⟨f, failed, rfl⟩ | ⟨v, w₂, ended, rest⟩
          · exact Or.inl ⟨f, .evaluates resolves failed, rfl⟩
          · exact Or.inr ⟨v, w₂, .evaluates resolves ended, rest⟩
    · rintro (⟨f, direct, rfl⟩ | ⟨v, w₁, direct, rest⟩)
      · cases direct with
        | fails resolves => exact Or.inl ⟨f, ⟨_, resolves, rfl⟩, rfl⟩
        | evaluates resolves evaluates =>
          exact Or.inr ⟨_, _, ⟨_, resolves, rfl⟩,
            evaluates_sequence.mpr (Or.inl ⟨f, evaluates, rfl⟩)⟩
      · cases direct with
        | evaluates resolves evaluates =>
          exact Or.inr ⟨_, _, ⟨_, resolves, rfl⟩,
            evaluates_sequence.mpr (Or.inr ⟨v, w₁, evaluates, rest⟩)⟩

theorem inTurn_eq : (fun scope => host.InTurn scope body) =
    fun scope => host.Direct scope (Engine.bodyOf body) := by
  funext scope w r w'
  exact propext direct_bodyOf.symm

/-! ### Binding lists -/

theorem readAll_written (bindings : List (String × Value)) :
    Binding.readAll (.list (bindings.map Binding.written)) =
      .ok (bindings.map fun b => ⟨.symbol b.1, b.2⟩) := by
  show (bindings.map Binding.written).mapM Binding.read = _
  induction bindings with
  | nil => rfl
  | cons b bindings ih =>
    rw [List.map_cons, List.mapM_cons, ih]
    rfl

/-- The running closure and names that may be bound together are a list of parameters. -/
theorem read_bindable (bindable : Symbol.Bindable names) :
    LambdaList.read (.list (Library.self :: names.map Value.symbol)) =
      .ok ⟨Symbol.selfName :: names, .ignored⟩ := by
  have fresh : ∀ name ∈ names, name ∉ [Symbol.selfName] := by
    intro name member twice
    exact bindable.other (List.mem_singleton.mp twice ▸ member)
  rw [LambdaList.read_self, ← List.append_nil (names.map Value.symbol),
    LambdaList.readAfter_names bindable.distinct bindable.free fresh]
  simp [LambdaList.readAfter]

/-- With a value for each parameter, the parameters are what is bound. -/
theorem entries_bindable {own : Value} {vs : List Value} (count : vs.length = names.length) :
    LambdaList.entries ⟨Symbol.selfName :: names, .ignored⟩ (own :: vs) =
      (Symbol.selfName, own) :: names.zip vs := by
  simp [LambdaList.entries, Rest.name?, count]

/-- The operand in front of the expressions is the running closure, as they leave it. -/
theorem resolvesAll_self (retains : host.Retains)
    (bound : (w.scopes.get? env Symbol.selfName).isSome) {r : Except Fault (List Resolved)} :
    host.ResolvesAll env (Library.self :: es) w r w' ↔
      (∃ f, host.ResolvesAll env es w (.error f) w' ∧ r = .error f) ∨
        ∃ ts own, host.ResolvesAll env es w (.ok ts) w' ∧
          w'.scopes.get? env Symbol.selfName = some own ∧ r = .ok (.value own :: ts) := by
  have self {w₁ : World σ} {own : Value} (found : w₁.scopes.get? env Symbol.selfName = some own)
      {first : Except Fault Resolved} :
      host.Resolves env Library.self w₁ first w' ↔ first = .ok (.value own) ∧ w' = w₁ :=
    resolves_symbol (by decide) (by decide) found
  rw [resolvesAll_cons]
  refine or_congr_right ⟨?_, ?_⟩
  · rintro ⟨ts, w₁, first, all, resolves, rfl⟩
    obtain ⟨own, found⟩ := Option.isSome_iff_exists.mp ((all.retains retains).get? bound)
    obtain ⟨rfl, rfl⟩ := (self found).mp resolves
    exact ⟨ts, own, all, found, rfl⟩
  · rintro ⟨ts, own, all, found, rfl⟩
    exact ⟨ts, w', _, all, (self found).mpr ⟨rfl, rfl⟩, rfl⟩

/-- The application of a function of these names binds them. -/
theorem opens_iff_lets (retains : host.Retains)
    (bound : (w.scopes.get? env Symbol.selfName).isSome)
    {inside : Environment → World σ → Except Fault Value → World σ → Prop}
    {r : Except Fault Value} :
    host.Opens env (Library.self :: bindings.map (·.2))
        (LambdaList.entries ⟨Symbol.selfName :: bindings.map (·.1), .ignored⟩) inside w r w' ↔
      host.Lets env bindings inside w r w' := by
  have entries {ts : List Resolved} {own : Value} {vs : List Value} {w₁ w₂ : World σ}
      (all : host.ResolvesAll env (bindings.map (·.2)) w (.ok ts) w₁)
      (values : host.EvaluatesAll ts w₁.identified (.ok vs) w₂) :
      LambdaList.entries ⟨Symbol.selfName :: bindings.map (·.1), .ignored⟩ (own :: vs) =
        (Symbol.selfName, own) :: (bindings.map (·.1)).zip vs := by
    refine entries_bindable ?_
    rw [values.length rfl, all.length rfl, List.length_map, List.length_map]
  constructor
  · intro opens
    cases opens with
    | unresolved operands =>
      rcases (resolvesAll_self retains bound).mp operands with ⟨f, all, same⟩ | ⟨_, _, _, _, same⟩
      · cases same
        exact .unresolved all
      · cases same
    | fails operands values =>
      rcases (resolvesAll_self retains bound).mp operands with ⟨_, _, same⟩ | ⟨ts, own, all, -, same⟩
      · cases same
      · cases same
        obtain ⟨rest, values, failed⟩ := evaluatesAll_value.mp values
        cases rest with
        | error f =>
          cases failed
          exact .fails all values
        | ok vs => cases failed
    | enters operands values direct =>
      rcases (resolvesAll_self retains bound).mp operands with
        ⟨_, _, same⟩ | ⟨ts, own, all, found, same⟩
      · cases same
      · cases same
        obtain ⟨rest, evaluates, ended⟩ := evaluatesAll_value.mp values
        cases rest with
        | error f => cases ended
        | ok vs =>
          cases ended
          rw [entries all evaluates] at direct
          exact .binds all found evaluates rfl direct
  · intro lets
    cases lets with
    | unresolved all =>
      exact .unresolved ((resolvesAll_self retains bound).mpr (Or.inl ⟨_, all, rfl⟩))
    | @binds ts own vs r scope w₁ w₂ w₃ w' all found values opened direct =>
      have operands := (resolvesAll_self retains bound).mpr (Or.inr ⟨ts, own, all, found, rfl⟩)
      refine .enters operands (evaluatesAll_value.mpr ⟨_, values, rfl⟩) ?_
      rw [entries all values, opened]
      exact direct
    | @fails ts f w₁ w' all values =>
      obtain ⟨own, found⟩ := Option.isSome_iff_exists.mp ((all.retains retains).get? bound)
      have operands := (resolvesAll_self retains bound).mpr (Or.inr ⟨ts, own, all, found, rfl⟩)
      exact .fails operands (evaluatesAll_value.mpr ⟨_, values, rfl⟩)

/-! ### Binding forms -/

/-- A new scope for names and the running closure binds the running closure. -/
theorem openChild_self {own : Value} {entries : List (String × Value)} {scope : Environment}
    {w₃ : World σ} (opened : w.openChild env
      (Table.ofEntries ((Symbol.selfName, own) :: entries)) = (scope, w₃)) :
    (w₃.scopes.get? scope Symbol.selfName).isSome := by
  have entry : (Table.ofEntries ((Symbol.selfName, own) :: entries))[Symbol.selfName]?.isSome := by
    rw [Table.ofEntries_get, List.reverse_cons, List.lookup_append]
    simp
  obtain ⟨v, bound⟩ := Option.isSome_iff_exists.mp entry
  obtain ⟨rfl, rfl⟩ := Prod.mk.inj opened
  rw [Scopes.get?_openChild rfl bound]
  rfl

/-- What stands inside counts only where the running closure is bound. -/
theorem Lets.imp {inside inside' : Environment → World σ → Except Fault Value → World σ → Prop}
    {r : Except Fault Value} (lets : host.Lets env bindings inside w r w')
    (weaker : ∀ {scope w r w'}, (w.scopes.get? scope Symbol.selfName).isSome →
      inside scope w r w' → inside' scope w r w') : host.Lets env bindings inside' w r w' := by
  cases lets with
  | unresolved all => exact .unresolved all
  | fails all values => exact .fails all values
  | binds all found values opened direct =>
    exact .binds all found values opened (weaker (openChild_self opened) direct)

/-- An application of a function of the names to the expressions binds the names at once. -/
theorem direct_parallelLet (retains : host.Retains)
    (bound : (w.scopes.get? env Symbol.selfName).isSome)
    (bindable : Symbol.Bindable (bindings.map (·.1))) {r : Except Fault Value} :
    host.Direct env
        (Library.parallelLet (bindings.map fun b => ⟨.symbol b.1, b.2⟩) body) w r w' ↔
      host.Lets env bindings (fun scope => host.InTurn scope body) w r w' := by
  rw [inTurn_eq, ← opens_iff_lets retains bound, ← direct_applied (read_bindable bindable)]
  simp only [Library.parallelLet, List.map_map, Function.comp_def]

theorem direct_let (retains : host.Retains)
    (bound : (w.scopes.get? env Symbol.selfName).isSome)
    (bindable : Symbol.Bindable (bindings.map (·.1)))
    (resolved : w.scopes.operator env operator = .ok (.expander .parallelLet))
    {r : Except Fault Value} :
    host.Direct env (Library.binding operator bindings body) w r w' ↔
      host.Lets env bindings (fun scope => host.InTurn scope body) w r w' := by
  rw [← direct_parallelLet retains bound bindable]
  exact direct_congr (resolves_expansion resolved (expansion_parallelLet (readAll_written _)))

/-- By induction on the names: behind the first one stands the form for the others, in the scope of
the first one. -/
theorem direct_serialLet (retains : host.Retains)
    (bound : (w.scopes.get? env Symbol.selfName).isSome)
    (bindable : ∀ b ∈ bindings, Symbol.Bindable [b.1]) {r : Except Fault Value} :
    host.Direct env
        (Library.serialLet (bindings.map fun b => ⟨.symbol b.1, b.2⟩) body) w r w' ↔
      host.LetsInTurn body bindings env w r w' := by
  have resolved {env : Environment} {w : World σ} :
      w.scopes.operator env (.expander .parallelLet) = .ok (.expander .parallelLet) := rfl
  induction bindings generalizing env w r w' with
  | nil =>
    have none : Symbol.Bindable (([] : List (String × Value)).map (·.1)) := ⟨.nil, nofun, nofun⟩
    exact direct_let retains bound none resolved
  | cons b bindings ih =>
    have first : Symbol.Bindable ([b].map (·.1)) := bindable b List.mem_cons_self
    cases bindings with
    | nil => exact direct_let retains bound first resolved
    | cons b' bindings =>
      have others {scope : Environment} {w : World σ} {r : Except Fault Value} {w' : World σ}
          (bound : (w.scopes.get? scope Symbol.selfName).isSome) :
          host.InTurn scope [Library.serialLet ((b' :: bindings).map
              fun b => ⟨.symbol b.1, b.2⟩) body] w r w' ↔
            host.LetsInTurn body (b' :: bindings) scope w r w' :=
        InTurn.iff_direct.trans
          (ih bound fun other member => bindable other (List.mem_cons_of_mem _ member))
      have more : (b' :: bindings).map (fun b => (⟨.symbol b.1, b.2⟩ : Binding)) ≠ [] :=
        List.cons_ne_nil _ _
      rw [List.map_cons, serialLet_cons more]
      refine (direct_let retains bound first resolved).trans ⟨fun lets => ?_, fun lets => ?_⟩
      · exact lets.imp fun bound inTurn => (others bound).mp inTurn
      · exact lets.imp fun bound inTurn => (others bound).mpr inTurn

theorem direct_letStar (retains : host.Retains)
    (bound : (w.scopes.get? env Symbol.selfName).isSome)
    (bindable : ∀ b ∈ bindings, Symbol.Bindable [b.1])
    (resolved : w.scopes.operator env operator = .ok (.expander .serialLet))
    {r : Except Fault Value} :
    host.Direct env (Library.binding operator bindings body) w r w' ↔
      host.LetsInTurn body bindings env w r w' := by
  rw [← direct_serialLet retains bound bindable]
  exact direct_congr (resolves_expansion resolved (expansion_serialLet (readAll_written _)))

/-- The native that makes a list of its arguments. -/
theorem direct_list (resolved : w.scopes.operator env operator = .ok (.native (.primitive .list)))
    {r : Except Fault Value} : host.Direct env (Library.apply operator es) w r w' ↔
      ∃ all, host.Lists env es w all w' ∧ r = all.map .list := by
  have listed (args : List Value) (w : World σ) {r : Except Fault Value} {w' : World σ} :
      host.Operates (.callable (.native (.primitive .list))) args w r w' ↔
        r = .ok (.list args) ∧ w' = w :=
    operates_callable.trans (calls_value rfl)
  constructor
  · intro direct
    rcases direct_iff.mp direct with ⟨f, tree, rfl⟩ | ⟨t, w₁, tree, evaluates⟩
    · obtain ⟨all, operands, same⟩ := (resolves_function resolved trivial).mp tree
      cases all with
      | error f' =>
        cases same
        exact ⟨_, .unresolved operands, rfl⟩
      | ok ts => cases same
    · obtain ⟨all, operands, same⟩ := (resolves_function resolved trivial).mp tree
      cases all with
      | error f' => cases same
      | ok ts =>
        cases same
        rcases evaluates_application.mp evaluates with ⟨f, values, rfl⟩ | ⟨args, w₂, values, made⟩
        · exact ⟨_, .evaluated operands values, rfl⟩
        · obtain ⟨rfl, rfl⟩ := (listed args w₂).mp made
          exact ⟨_, .evaluated operands values, rfl⟩
  · rintro ⟨all, lists, rfl⟩
    cases lists with
    | unresolved operands =>
      exact .fails ((resolves_function resolved trivial).mpr ⟨_, operands, rfl⟩)
    | @evaluated ts all w₁ _ operands values =>
      refine .evaluates ((resolves_function resolved trivial).mpr ⟨_, operands, rfl⟩)
        (evaluates_application.mpr ?_)
      cases all with
      | error f => exact Or.inl ⟨f, values, rfl⟩
      | ok args => exact Or.inr ⟨args, w', values, (listed args w').mpr ⟨rfl, rfl⟩⟩

/-- Binding forms mean what they should, whatever else is bound. Where the name of the running closure
resolves, `let` evaluates the expressions as `list` does its arguments, failing where that fails, and
its body in a new scope for the names, and `let*` is `let` inside of `let`. -/
theorem Sound.binding_forms_textbook (sound : host.Sound) (retains : host.Retains)
    (bound : (w.scopes.get? env Symbol.selfName).isSome) (bindings : List (String × Value))
    (body : List Value) (cap : BacktraceCap) :
    (∀ operator, w.scopes.operator env operator = .ok (.native (.primitive .list)) → ∀ r w',
      host.EndsWith env (Library.apply operator (bindings.map (·.2))) cap w r w' ↔
        ∃ all, host.Lists env (bindings.map (·.2)) w all w' ∧ r = all.map .list) ∧
    (∀ operator, w.scopes.operator env operator = .ok (.expander .parallelLet) →
      Symbol.Bindable (bindings.map (·.1)) → ∀ r w',
      host.EndsWith env (Library.binding operator bindings body) cap w r w' ↔
        host.Lets env bindings (fun scope => host.InTurn scope body) w r w') ∧
    ∀ operator, w.scopes.operator env operator = .ok (.expander .serialLet) →
      (∀ b ∈ bindings, Symbol.Bindable [b.1]) → ∀ r w',
      host.EndsWith env (Library.binding operator bindings body) cap w r w' ↔
        host.LetsInTurn body bindings env w r w' := by
  refine ⟨fun operator resolved r w' => ?_, fun operator resolved bindable r w' => ?_,
    fun operator resolved bindable r w' => ?_⟩
  · exact (evaluateOnce_eq_direct sound ..).trans (direct_list resolved)
  · exact (evaluateOnce_eq_direct sound ..).trans (direct_let retains bound bindable resolved)
  · exact (evaluateOnce_eq_direct sound ..).trans (direct_letStar retains bound bindable resolved)

/-! ### Names of forms -/

theorem none_sound : (Host.none σ).Sound :=
  ⟨nofun, nofun⟩

theorem none_retains : (Host.none σ).Retains :=
  ⟨fun _ _ w => .refl w, fun _ _ _ w => .refl w, fun _ _ _ w => .refl w⟩

end Host

namespace Extension

/-- An interpreter of the standard library alone. -/
def standard : Interpreter × World Log :=
  Interpreter.build ⟨{}, 0, []⟩ Library.table ∅ {}

/-- Two names of forms, the second of which is bound to what the first one stands for. -/
def renames : List (String × Value) :=
  [("lambda", .truth), ("if", .symbol "lambda")]

/-- A list of what the two names stand for. -/
def renamed : List Value :=
  [.list [.symbol "list", .symbol "lambda", .symbol "if"]]

/-- A binding whose expression answers with two values. -/
def spreads : List (String × Value) :=
  [("a", .list [.symbol "spread", .truth, .nil])]

/-- An interpreter of the standard library with the native that answers with its two arguments. -/
def misplacing : Interpreter × World Log :=
  Interpreter.build ⟨{}, 0, []⟩ Library.table
    (Table.ofEntries [("spread", .callable (.native (.host "spread")))]) {}

end Extension

open Extension in
/-- The names of forms may be bound. Bound at once, the second name stands for the form that the first
one names outside; bound in turn, for what the first one is bound to. -/
theorem Host.binding_forms_textbook_renames :
    (Host.none Log).Sound ∧ (Host.none Log).Retains ∧
    (standard.2.scopes.get? standard.1.root Symbol.selfName).isSome ∧
    Symbol.Bindable (renames.map (·.1)) ∧ ∃ w w',
      (Host.none Log).Lets standard.1.root renames
        (fun scope => (Host.none Log).InTurn scope renamed) standard.2
        (.ok (.list [.truth, .callable (.form .lambda)])) w ∧
      (Host.none Log).LetsInTurn renamed renames standard.1.root standard.2
        (.ok (.list [.truth, .truth])) w' := by
  have bindable : Symbol.Bindable (renames.map (·.1)) := ⟨by decide, by decide, by decide⟩
  have bound : (standard.2.scopes.get? standard.1.root Symbol.selfName).isSome := rfl
  have each : ∀ b ∈ renames, Symbol.Bindable [b.1] := by
    intro b member
    have inside : b.1 ∈ renames.map (·.1) := List.mem_map_of_mem member
    refine ⟨List.pairwise_singleton _ _, fun name single => ?_, fun single => ?_⟩
    · rw [List.mem_singleton.mp single]
      exact bindable.free _ inside
    · exact bindable.other (List.mem_singleton.mp single ▸ inside)
  obtain ⟨-, atOnce, inTurn⟩ := Host.Sound.binding_forms_textbook none_sound none_retains bound
    renames renamed 10
  refine ⟨none_sound, none_retains, bound, bindable, _, _,
    (atOnce (.symbol "let") rfl bindable _ _).mp ⟨_, ⟨20, rfl⟩, rfl⟩,
    (inTurn (.symbol "let*") rfl each _ _).mp ⟨_, ⟨20, rfl⟩, rfl⟩⟩

open Extension in
/-- With an expression that answers with two values, binding a name to it fails, but not as a list
of its value does: the second value stands in the place of the function. -/
theorem Host.binding_misplaces_values :
    (misplacing.2.scopes.get? misplacing.1.root Symbol.selfName).isSome ∧
    misplacing.2.scopes.operator misplacing.1.root (.symbol "let") = .ok (.expander .parallelLet) ∧
    misplacing.2.scopes.operator misplacing.1.root (.symbol "list") =
      .ok (.native (.primitive .list)) ∧ Symbol.Bindable (spreads.map (·.1)) ∧
    ∃ f f' w w',
      Extension.host.EndsWith misplacing.1.root (Library.apply (.symbol "list") (spreads.map (·.2)))
        10 misplacing.2 (.error f) w ∧
      Extension.host.EndsWith misplacing.1.root
        (Library.binding (.symbol "let") spreads [.symbol "a"]) 10 misplacing.2 (.error f') w' ∧
      f.kind = .internal ∧ f'.kind = .illegalCall := by
  have bindable : Symbol.Bindable (spreads.map (·.1)) := ⟨by decide, by decide, by decide⟩
  exact ⟨rfl, rfl, rfl, bindable, _, _, _, _, ⟨_, ⟨20, rfl⟩, rfl⟩, ⟨_, ⟨20, rfl⟩, rfl⟩, rfl, rfl⟩

end CooperativeLisp

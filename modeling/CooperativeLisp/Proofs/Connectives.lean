import CooperativeLisp.Proofs.Steadfast

/-!
The meaning of the connectives. `and` expands into conditions one inside the other; `or` expands into
functions that hand the running closure on, so what stands behind an operand is evaluated in a scope of
its own. Main statement: whatever the names of the environment stand for, operands are compiled and
evaluated one after the other, no further than to the first that decides, and wherever one of them is
evaluated, every name resolves as it does in the environment of the whole.
-/

namespace CooperativeLisp

variable {σ : Type} {roots : ScopeId → Prop} {keeps : Scopes → σ → Prop}

/-- The function that keeps what stands behind an operand of `or` until it is needed. -/
def Closure.keeping (identity : Nat) (env : Environment) (others : List Value) : Closure :=
  ⟨identity, [Symbol.selfName], .ignored, Library.disjunction others, env⟩

namespace Host

variable {host : Host σ} {env scope : Environment} {e operator own v : Value} {es others : List Value}
variable {w w' w₁ : World σ}

/-! ### What the connectives should mean -/

/-- The operands of `and` are evaluated one after the other, each only once the one before it is true.
If one of them is nil, so is the whole; else it has the value of the last one, and without operands it
is true. -/
inductive Conjoins (host : Host σ) (env : Environment) :
    List Value → World σ → Except Fault Value → World σ → Prop
  | none {w : World σ} : Conjoins host env [] w (.ok .truth) w
  | last {e : Value} {r : Except Fault Value} {w w' : World σ} :
      host.Direct env e w r w' → Conjoins host env [e] w r w'
  | fails {e e' : Value} {more : List Value} {f : Fault} {w w' : World σ} :
      host.Direct env e w (.error f) w' → Conjoins host env (e :: e' :: more) w (.error f) w'
  | stops {e e' v : Value} {more : List Value} {w w' : World σ} :
      host.Direct env e w (.ok v) w' → v.isTrue = false →
      Conjoins host env (e :: e' :: more) w (.ok .nil) w'
  | next {e e' v : Value} {more : List Value} {r : Except Fault Value} {w w₁ w' : World σ} :
      host.Direct env e w (.ok v) w₁ → v.isTrue = true → Conjoins host env (e' :: more) w₁ r w' →
      Conjoins host env (e :: e' :: more) w r w'

/-- An operand of `or` is evaluated in front of others. An identity is used up before it is resolved,
for the function that keeps the others, and one before it is evaluated, for the function that looks at
its value. The scope of that function is opened with the value. -/
inductive Tries (host : Host σ) (own : Value) (env : Environment) (e : Value) (others : List Value)
    (w : World σ) : Except Fault Value → World σ → Prop
  | unresolved {f : Fault} {w' : World σ} : host.Resolves env e w.identified (.error f) w' →
      Tries host own env e others w (.error f) w'
  | fails {t : Resolved} {f : Fault} {w₁ w' : World σ} :
      host.Resolves env e w.identified (.ok t) w₁ →
      host.Evaluates t w₁.identified (.error f) w' → Tries host own env e others w (.error f) w'
  | yields {t : Resolved} {v : Value} {look : Environment} {w₁ w₂ w' : World σ} :
      host.Resolves env e w.identified (.ok t) w₁ → host.Evaluates t w₁.identified (.ok v) w₂ →
      w₂.openChild env (Table.ofEntries [(Symbol.selfName, own), ("v", v),
        ("k", .callable (.closure (.keeping w.closures env others)))]) = (look, w') →
      Tries host own env e others w (.ok v) w'

/-- The operands of `or` are evaluated one after the other, as long as they are nil. The ones behind an
operand that is nil are evaluated in a new scope, which binds the name of the running closure to what
it stands for outside and no other name. -/
inductive Passes (host : Host σ) (own : Value) :
    Environment → List Value → World σ → Environment → List Value → World σ → Prop
  | here {env : Environment} {es : List Value} {w : World σ} : Passes host own env es w env es w
  | next {env inner scope : Environment} {e e' v : Value} {more es : List Value}
      {w w₁ w₂ w' : World σ} : host.Tries own env e (e' :: more) w (.ok v) w₁ →
      v.isTrue = false →
      w₁.openChild env (Table.ofEntries [(Symbol.selfName, own)]) = (inner, w₂) →
      Passes host own inner (e' :: more) w₂ scope es w' →
      Passes host own env (e :: e' :: more) w scope es w'

/-- The first operand of these decides about `or`: it is the last one, it fails, or it is true. Without
operands the value is nil. -/
inductive Decides (host : Host σ) (own : Value) (env : Environment) :
    List Value → World σ → Except Fault Value → World σ → Prop
  | none {w : World σ} : Decides host own env [] w (.ok .nil) w
  | last {e : Value} {r : Except Fault Value} {w w' : World σ} :
      host.Direct env e w r w' → Decides host own env [e] w r w'
  | fails {e e' : Value} {more : List Value} {f : Fault} {w w' : World σ} :
      host.Tries own env e (e' :: more) w (.error f) w' →
      Decides host own env (e :: e' :: more) w (.error f) w'
  | holds {e e' v : Value} {more : List Value} {w w' : World σ} :
      host.Tries own env e (e' :: more) w (.ok v) w' → v.isTrue = true →
      Decides host own env (e :: e' :: more) w (.ok v) w'

/-- The operands of `or` are evaluated as far as to the one that decides. -/
def Disjoins (host : Host σ) (own : Value) (env : Environment) (es : List Value) (w : World σ)
    (r : Except Fault Value) (w' : World σ) : Prop :=
  ∃ scope rest w₁, host.Passes own env es w scope rest w₁ ∧ host.Decides own scope rest w₁ r w'

/-! ### Conditions -/

theorem operates_branch {t : Value} {args : List Value} {r : Except Fault Value} :
    host.Operates (.branch env t e) args w r w' ↔
      host.Direct env (if args.head?.any Value.isTrue then t else e) w r w' := by
  constructor
  · intro operates
    cases operates with
    | consequent chosen direct => rwa [if_pos chosen]
    | alternative chosen direct => rwa [if_neg (Bool.eq_false_iff.mp chosen)]
  · intro direct
    split at direct
    · exact .consequent ‹_› direct
    · exact .alternative (Bool.eq_false_iff.mpr ‹_›) direct

/-- The tree of a condition: the value of the test chooses a branch. -/
theorem evaluates_conditional {t : Value} {u : Resolved} {r : Except Fault Value} :
    host.Evaluates (.conditional env es t e u) w r w' ↔
      (∃ f, host.Evaluates u w (.error f) w' ∧ r = .error f) ∨
        ∃ v w₁, host.Evaluates u w (.ok v) w₁ ∧
          host.Direct env (if v.isTrue then t else e) w₁ r w' := by
  rw [Resolved.conditional, evaluates_application]
  simp only [operates_branch]
  constructor
  · rintro (⟨f, all, rfl⟩ | ⟨args, w₁, all, direct⟩)
    · obtain ⟨first, evaluates, same⟩ := evaluatesAll_single.mp all
      cases first with
      | error f' =>
        cases same
        exact Or.inl ⟨f, evaluates, rfl⟩
      | ok v => cases same
    · obtain ⟨first, evaluates, same⟩ := evaluatesAll_single.mp all
      cases first with
      | error f' => cases same
      | ok v =>
        cases same
        exact Or.inr ⟨v, w₁, evaluates, direct⟩
  · rintro (⟨f, evaluates, rfl⟩ | ⟨v, w₁, evaluates, direct⟩)
    · exact Or.inl ⟨f, .fails evaluates, rfl⟩
    · exact Or.inr ⟨[v], w₁, .single evaluates, direct⟩

theorem resolves_conditional {c t : Value} {r : Except Fault Resolved}
    (resolved : w.scopes.operator env operator = .ok (.form .conditional)) :
    host.Resolves env (Library.apply operator [c, t, e]) w r w' ↔
      ∃ first, host.Resolves env c w first w' ∧ r = first.map (.conditional env [c, t, e] t e) := by
  have admitted : Form.conditional.arity.Admits [c, t, e].length :=
    Nat.succ_le_succ (Nat.succ_le_succ (Nat.zero_le _))
  rw [resolves_form resolved admitted]
  constructor
  · intro applies
    cases applies with
    | fullChoice resolves => exact ⟨_, resolves, rfl⟩
  · rintro ⟨first, resolves, rfl⟩
    exact .fullChoice resolves

/-- A condition evaluates its test and then one of its branches. -/
theorem direct_conditional {c t : Value} {r : Except Fault Value}
    (resolved : w.scopes.operator env operator = .ok (.form .conditional)) :
    host.Direct env (Library.apply operator [c, t, e]) w r w' ↔
      (∃ f, host.Direct env c w (.error f) w' ∧ r = .error f) ∨
        ∃ v w₁, host.Direct env c w (.ok v) w₁ ∧
          host.Direct env (if v.isTrue then t else e) w₁ r w' := by
  rw [direct_iff]
  simp only [resolves_conditional resolved]
  constructor
  · rintro (⟨f, ⟨first, resolves, same⟩, rfl⟩ | ⟨t', w₁, ⟨first, resolves, same⟩, evaluates⟩)
    · cases first with
      | error f' =>
        cases same
        exact Or.inl ⟨f, .fails resolves, rfl⟩
      | ok u => cases same
    · cases first with
      | error f' => cases same
      | ok u =>
        cases same
        rcases evaluates_conditional.mp evaluates with ⟨f, failed, rfl⟩ | ⟨v, w₂, ended, direct⟩
        · exact Or.inl ⟨f, .evaluates resolves failed, rfl⟩
        · exact Or.inr ⟨v, w₂, .evaluates resolves ended, direct⟩
  · rintro (⟨f, direct, rfl⟩ | ⟨v, w₁, direct, chosen⟩)
    · cases direct with
      | fails resolves => exact Or.inl ⟨f, ⟨_, resolves, rfl⟩, rfl⟩
      | evaluates resolves evaluates =>
        exact Or.inr ⟨_, _, ⟨_, resolves, rfl⟩,
          evaluates_conditional.mpr (Or.inl ⟨f, evaluates, rfl⟩)⟩
    · cases direct with
      | evaluates resolves evaluates =>
        exact Or.inr ⟨_, _, ⟨_, resolves, rfl⟩,
          evaluates_conditional.mpr (Or.inr ⟨v, w₁, evaluates, chosen⟩)⟩

theorem resolves_atom {r : Except Fault Resolved} (plain : v.IsAtom) :
    host.Resolves env v w r w' ↔ r = .ok (.value v) ∧ w' = w := by
  constructor
  · intro resolves
    cases resolves with
    | atom => exact ⟨rfl, rfl⟩
    | _ => exact plain.elim
  · rintro ⟨rfl, rfl⟩
    exact .atom plain

/-- What becomes a value has it as its own. -/
theorem direct_of_resolves (resolves : ∀ {tree w'},
      host.Resolves env e w tree w' ↔ tree = .ok (.value v) ∧ w' = w) {r : Except Fault Value} :
    host.Direct env e w r w' ↔ r = .ok v ∧ w' = w := by
  simp only [direct_iff, resolves]
  constructor
  · rintro (⟨f, ⟨same, -⟩, -⟩ | ⟨t, w₁, ⟨same, rfl⟩, evaluates⟩)
    · cases same
    · cases same
      cases evaluates
      exact ⟨rfl, rfl⟩
  · rintro ⟨rfl, rfl⟩
    exact Or.inr ⟨_, w', ⟨rfl, rfl⟩, .value⟩

/-! ### And -/

theorem conjunction_next (e e' : Value) (more : List Value) :
    Library.conjunction (e :: e' :: more) = Library.apply (.form .conditional)
      [e, Library.conjunction (e' :: more), .nil] := by
  rw [← List.dropLast_concat_getLast (List.cons_ne_nil e' more), conjunction_cons]

/-- By induction on the operands: behind the first one stands the conjunction of the others. -/
theorem direct_conjunction {r : Except Fault Value} :
    host.Direct env (Library.conjunction es) w r w' ↔ host.Conjoins env es w r w' := by
  induction es generalizing w r w' with
  | nil =>
    refine (direct_of_resolves (resolves_atom (v := .truth) trivial)).trans ⟨?_, fun conjoins => ?_⟩
    · rintro ⟨rfl, rfl⟩
      exact .none
    · cases conjoins
      exact ⟨rfl, rfl⟩
  | cons e es ih =>
    cases es with
    | nil =>
      refine ⟨.last, fun conjoins => ?_⟩
      cases conjoins with
      | last direct => exact direct
    | cons e' more =>
      have decided {w : World σ} {r : Except Fault Value} :
          host.Direct env .nil w r w' ↔ r = .ok .nil ∧ w' = w :=
        direct_of_resolves (resolves_atom (v := .nil) trivial)
      rw [conjunction_next, direct_conditional rfl]
      constructor
      · rintro (⟨f, direct, rfl⟩ | ⟨v, w₁, direct, chosen⟩)
        · exact .fails direct
        · cases holds : v.isTrue with
          | true =>
            rw [holds, if_pos rfl] at chosen
            exact .next direct holds (ih.mp chosen)
          | false =>
            rw [holds, if_neg Bool.false_ne_true] at chosen
            obtain ⟨rfl, rfl⟩ := decided.mp chosen
            exact .stops direct holds
      · intro conjoins
        cases conjoins with
        | fails direct => exact Or.inl ⟨_, direct, rfl⟩
        | stops direct isNil =>
          refine Or.inr ⟨_, _, direct, ?_⟩
          rw [isNil, if_neg Bool.false_ne_true]
          exact decided.mpr ⟨rfl, rfl⟩
        | next direct holds rest =>
          refine Or.inr ⟨_, _, direct, ?_⟩
          rw [holds, if_pos rfl]
          exact ih.mpr rest

/-! ### Scopes that hand the running closure on -/

/-- A look-up in a new scope visits its entries first. -/
theorem get?_opened {entries : List (String × Value)} {name : String} {x : Value}
    (opened : w.openChild env (Table.ofEntries entries) = (scope, w₁))
    (last : entries.reverse.lookup name = some x) : w₁.scopes.get? scope name = some x := by
  obtain ⟨rfl, rfl⟩ := Prod.mk.inj opened
  exact Scopes.get?_openChild rfl ((Table.ofEntries_get _ name).trans last)

/-- The scope of a function whose first parameter is the name of the running closure. -/
theorem enter_handed {c : Closure} {names : List String} (args : List Value)
    (first : c.params = Symbol.selfName :: names) :
    w.enter c args =
      w.openChild c.env (Table.ofEntries (LambdaList.entries ⟨c.params, c.rest⟩ args)) := by
  unfold World.enter
  rw [Closure.arguments_table args first]
  rfl

/-- Opening such a scope for what is held leads to a sound world. Which function it is the scope of
makes no difference. -/
theorem Writes.handed (writes : host.Writes roots False keeps) (names : List String) (rest : Rest)
    (sound : w.Sound roots keeps) (genuine : env.Genuine roots w.scopes) {args : List Value}
    (held : ∀ v ∈ args, v.Held roots w.scopes)
    (opened : w.openChild env (Table.ofEntries
      (LambdaList.entries ⟨Symbol.selfName :: names, rest⟩ args)) = (scope, w₁)) :
    w.Follows roots False keeps w₁ ∧ scope.Genuine roots w₁.scopes := by
  let c : Closure := ⟨0, Symbol.selfName :: names, rest, .nil, env⟩
  have callee : Value.Held roots w.scopes (.callable (.closure c)) := .closure rfl .nil ⟨rfl, genuine⟩
  exact writes.enters sound callee held ((enter_handed args rfl).trans opened)

/-- A scope that binds nothing but the name of the running closure, to what it stands for outside, is
not noticed: from then on every name resolves there as it does outside. -/
theorem unnoticed (sound : w.Sound roots keeps) (genuine : env.Genuine roots w.scopes)
    (bound : w.scopes.get? env Symbol.selfName = some own)
    (opened : w.openChild env (Table.ofEntries [(Symbol.selfName, own)]) = (scope, w₁))
    (opens : w.Follows roots False keeps w₁) (follows : w₁.Follows roots False keeps w')
    (name : String) : w'.scopes.get? scope name = w'.scopes.get? env name := by
  have outside : w'.scopes.get? env Symbol.selfName = some own :=
    (opens.trans sound follows).kept.get? not_false genuine bound
  have size : w.scopes.tables.size <
      (w.scopes.openChild env (Table.ofEntries [(Symbol.selfName, own)])).2.tables.size :=
    Nat.lt_of_succ_le (Nat.le_of_eq Scopes.tables_openChild.symm)
  obtain ⟨rfl, rfl⟩ := Prod.mk.inj opened
  have fresh : ¬ roots w.scopes.tables.size := fun root =>
    Nat.lt_irrefl _ (sound.scopes.opened root)
  have inside : w'.scopes.local? w.scopes.tables.size name =
      [(Symbol.selfName, own)].lookup name := by
    rw [Scopes.local?, follows.kept.inner not_false size fresh]
    have entry : (w.scopes.openChild env (Table.ofEntries [(Symbol.selfName, own)])).2.local?
        w.scopes.tables.size name = _ := Scopes.local?_openChild_self
    exact entry.trans (Table.ofEntries_get _ name)
  show w'.scopes.find? name (w.scopes.tables.size :: env.chain) = _
  unfold Scopes.find?
  rw [inside]
  by_cases self : name = Symbol.selfName
  · subst self
    exact outside.symm
  · have other : (name == Symbol.selfName) = false := beq_eq_false_iff_ne.mpr self
    simp only [List.lookup_cons, other, List.lookup_nil]
    rfl

/-! ### Or -/

theorem disjunction_next (e e' : Value) (more : List Value) :
    Library.disjunction (e :: e' :: more) =
      Library.choice e (Library.disjunction (e' :: more)) := by
  rw [← List.dropLast_concat_getLast (List.cons_ne_nil e' more), disjunction_cons]

/-- The operands of the function that looks at a value. The last one is resolved first, and the name of
the running closure when the operand of `or` has been. -/
theorem resolvesAll_choice (rest : Value) {r : Except Fault (List Resolved)}
    (lasts : ∀ {t w₁}, host.Resolves env e w.identified (.ok t) w₁ →
      w₁.scopes.get? env Symbol.selfName = some own) :
    host.ResolvesAll env [Library.self, e, Library.lambda [Library.self] [rest]] w r w' ↔
      (∃ f, host.Resolves env e w.identified (.error f) w' ∧ r = .error f) ∨
        ∃ t, host.Resolves env e w.identified (.ok t) w' ∧ r = .ok [.value own, t,
          .value (.callable (.closure ⟨w.closures, [Symbol.selfName], .ignored, rest, env⟩))] := by
  have kept {r : Except Fault (List Resolved)} {w' : World σ} :
      host.ResolvesAll env [Library.lambda [Library.self] [rest]] w r w' ↔ w' = w.identified ∧
        r = .ok [.value (.callable (.closure
          ⟨w.closures, [Symbol.selfName], .ignored, rest, env⟩))] := by
    constructor
    · intro all
      obtain ⟨made, one, rfl⟩ := all.of_single
      obtain ⟨rfl, rfl⟩ := resolves_lambda.mp one
      exact ⟨rfl, rfl⟩
    · rintro ⟨rfl, rfl⟩
      exact .single (resolves_lambda.mpr ⟨rfl, rfl⟩)
  have self {w₁ : World σ} (found : w₁.scopes.get? env Symbol.selfName = some own)
      {first : Except Fault Resolved} :
      host.Resolves env Library.self w₁ first w' ↔ first = .ok (.value own) ∧ w' = w₁ :=
    resolves_symbol (by decide) (by decide) found
  constructor
  · intro all
    rcases resolvesAll_cons.mp all with ⟨f, behind, rfl⟩ | ⟨us, w₁, first, behind, name, rfl⟩
    · rcases resolvesAll_cons.mp behind with ⟨f', last, -⟩ | ⟨ts, w₂, second, last, one, same⟩
      · cases (kept.mp last).2
      · obtain ⟨rfl, -⟩ := kept.mp last
        cases second with
        | error f' =>
          cases same
          exact Or.inl ⟨f, one, rfl⟩
        | ok t => cases same
    · rcases resolvesAll_cons.mp behind with ⟨f', last, -⟩ | ⟨ts, w₂, second, last, one, same⟩
      · cases (kept.mp last).2
      · obtain ⟨rfl, trees⟩ := kept.mp last
        cases trees
        cases second with
        | error f' => cases same
        | ok t =>
          cases same
          obtain ⟨rfl, rfl⟩ := (self (lasts one)).mp name
          exact Or.inr ⟨t, one, rfl⟩
  · rintro (⟨f, one, rfl⟩ | ⟨t, one, rfl⟩)
    · exact .fails (.cons (kept.mpr ⟨rfl, rfl⟩) one)
    · exact .cons (.cons (kept.mpr ⟨rfl, rfl⟩) one) ((self (lasts one)).mpr ⟨rfl, rfl⟩)

/-- Of the arguments only the operand of `or` is left to evaluate. -/
theorem evaluatesAll_choice {t : Resolved} {x y : Value} {r : Except Fault (List Value)} :
    host.EvaluatesAll [.value x, t, .value y] w r w' ↔
      ∃ first, host.Evaluates t w first w' ∧ r = first.map fun v => [x, v, y] := by
  rw [evaluatesAll_value]
  constructor
  · rintro ⟨rest, values, rfl⟩
    cases values with
    | fails one => exact ⟨_, one, rfl⟩
    | cons one last =>
      obtain ⟨none, values, rfl⟩ := evaluatesAll_value.mp last
      cases values
      exact ⟨_, one, rfl⟩
  · rintro ⟨first, one, rfl⟩
    cases first with
    | error f => exact ⟨_, .fails one, rfl⟩
    | ok v => exact ⟨_, .cons one (.single .value), rfl⟩

/-- A name that stands for a closure is applied to a name. -/
theorem direct_called {name argument : String} {c : Closure} {x : Value} {r : Except Fault Value}
    (callee : w.scopes.get? env name = some (.callable (.closure c)))
    (notNil : argument ≠ Symbol.nilName) (notTruth : argument ≠ Symbol.truthName)
    (bound : w.scopes.get? env argument = some x) :
    host.Direct env (.list [.symbol name, .symbol argument]) w r w' ↔
      host.Direct (w.enter c [x]).1 c.body (w.enter c [x]).2 r w' := by
  have operator : w.scopes.operator env (.symbol name) = .ok (.closure c) := by
    simp only [Scopes.operator, callee]
  have operands {all : Except Fault (List Resolved)} {w' : World σ} :
      host.ResolvesAll env [.symbol argument] w all w' ↔ all = .ok [.value x] ∧ w' = w := by
    constructor
    · intro all
      obtain ⟨first, one, rfl⟩ := all.of_single
      obtain ⟨rfl, rfl⟩ := (resolves_symbol notNil notTruth bound).mp one
      exact ⟨rfl, rfl⟩
    · rintro ⟨rfl, rfl⟩
      exact .single (.symbol notNil notTruth bound)
  have resolves {tree : Except Fault Resolved} {w' : World σ} :
      host.Resolves env (.list [.symbol name, .symbol argument]) w tree w' ↔
        tree = .ok (.application (.callable (.closure c)) [.value x]
          (.list [.symbol name, .symbol argument])) ∧ w' = w := by
    refine (resolves_function operator trivial).trans ⟨?_, ?_⟩
    · rintro ⟨all, resolved, rfl⟩
      obtain ⟨rfl, rfl⟩ := operands.mp resolved
      exact ⟨rfl, rfl⟩
    · rintro ⟨rfl, rfl⟩
      exact ⟨_, operands.mpr ⟨rfl, rfl⟩, rfl⟩
  simp only [direct_iff (e := .list _), resolves]
  constructor
  · rintro (⟨f, ⟨same, -⟩, -⟩ | ⟨t, w₁, ⟨same, rfl⟩, evaluates⟩)
    · cases same
    · cases same
      rcases evaluates_application.mp evaluates with ⟨f, values, -⟩ | ⟨args, w₂, values, operates⟩
      · obtain ⟨first, value, same⟩ := evaluatesAll_single.mp values
        cases value
        cases same
      · obtain ⟨first, value, same⟩ := evaluatesAll_single.mp values
        cases value
        cases same
        exact calls_closure.mp (operates_callable.mp operates)
  · intro direct
    refine Or.inr ⟨_, w, ⟨rfl, rfl⟩, evaluates_application.mpr (Or.inr ⟨[x], w, ?_, ?_⟩)⟩
    · exact .single .value
    · exact operates_callable.mpr (calls_closure.mpr direct)

/-- What the function that looks at the value of an operand does: if the value is nil, it calls the
function that keeps the rest. -/
theorem direct_look {look : Environment} {identity : Nat} {rest : Value} {r : Except Fault Value}
    (opened : w.openChild env (Table.ofEntries [(Symbol.selfName, own), ("v", v),
      ("k", .callable (.closure ⟨identity, [Symbol.selfName], .ignored, rest, env⟩))]) =
        (look, w₁)) :
    host.Direct look (Library.apply (.form .conditional)
        [.symbol "v", .symbol "v", .list [.symbol "k", Library.self]]) w₁ r w' ↔
      (v.isTrue = true ∧ r = .ok v ∧ w' = w₁) ∨
        v.isTrue = false ∧ ∃ scope w₂,
          w₁.openChild env (Table.ofEntries [(Symbol.selfName, own)]) = (scope, w₂) ∧
          host.Direct scope rest w₂ r w' := by
  have value {r : Except Fault Value} {w' : World σ} :
      host.Direct look (.symbol "v") w₁ r w' ↔ r = .ok v ∧ w' = w₁ :=
    direct_of_resolves (resolves_symbol (by decide) (by decide) (get?_opened opened rfl))
  have called {r : Except Fault Value} {w' : World σ} :
      host.Direct look (.list [.symbol "k", Library.self]) w₁ r w' ↔ ∃ scope w₂,
        w₁.openChild env (Table.ofEntries [(Symbol.selfName, own)]) = (scope, w₂) ∧
          host.Direct scope rest w₂ r w' := by
    rw [Library.self, direct_called (get?_opened opened rfl) (by decide) (by decide)
      (get?_opened opened rfl), enter_handed [own] rfl]
    exact ⟨fun direct => ⟨_, _, rfl, direct⟩, by rintro ⟨scope, w₂, ⟨rfl, rfl⟩, direct⟩; exact direct⟩
  rw [direct_conditional rfl]
  simp only [value]
  constructor
  · rintro (⟨f, ⟨same, -⟩, -⟩ | ⟨u, w₂, ⟨same, rfl⟩, chosen⟩)
    · cases same
    · cases same
      cases holds : v.isTrue with
      | true =>
        rw [holds, if_pos rfl] at chosen
        exact Or.inl ⟨rfl, value.mp chosen⟩
      | false =>
        rw [holds, if_neg Bool.false_ne_true] at chosen
        exact Or.inr ⟨rfl, called.mp chosen⟩
  · rintro (⟨holds, rfl, rfl⟩ | ⟨isNil, behind⟩)
    · refine Or.inr ⟨v, _, ⟨rfl, rfl⟩, ?_⟩
      rw [holds, if_pos rfl]
      exact value.mpr ⟨rfl, rfl⟩
    · refine Or.inr ⟨v, w₁, ⟨rfl, rfl⟩, ?_⟩
      rw [isNil, if_neg Bool.false_ne_true]
      exact called.mpr behind

/-- An operand in front of others: it fails, it is true, or the others are evaluated in a scope that
hands the running closure on. -/
theorem direct_choice {r : Except Fault Value}
    (lasts : ∀ {t w₁}, host.Resolves env e w.identified (.ok t) w₁ →
      w₁.scopes.get? env Symbol.selfName = some own) :
    host.Direct env (Library.choice e (Library.disjunction others)) w r w' ↔
      (∃ f, host.Tries own env e others w (.error f) w' ∧ r = .error f) ∨
      (∃ v, host.Tries own env e others w (.ok v) w' ∧ v.isTrue = true ∧ r = .ok v) ∨
      ∃ v w₁ scope w₂, host.Tries own env e others w (.ok v) w₁ ∧ v.isTrue = false ∧
        w₁.openChild env (Table.ofEntries [(Symbol.selfName, own)]) = (scope, w₂) ∧
        host.Direct scope (Library.disjunction others) w₂ r w' := by
  have read : LambdaList.read (.list (Library.self :: [.symbol "v", .symbol "k"])) =
      .ok ⟨[Symbol.selfName, "v", "k"], .ignored⟩ := rfl
  rw [Library.choice, direct_applied read]
  constructor
  · intro opens
    cases opens with
    | unresolved all =>
      rcases (resolvesAll_choice _ lasts).mp all with ⟨f, one, same⟩ | ⟨t, -, same⟩
      · cases same
        exact Or.inl ⟨_, .unresolved one, rfl⟩
      · cases same
    | fails all values =>
      rcases (resolvesAll_choice _ lasts).mp all with ⟨f, -, same⟩ | ⟨t, one, same⟩
      · cases same
      · cases same
        obtain ⟨first, evaluates, same⟩ := evaluatesAll_choice.mp values
        cases first with
        | error f =>
          cases same
          exact Or.inl ⟨_, .fails one evaluates, rfl⟩
        | ok v => cases same
    | enters all values direct =>
      rcases (resolvesAll_choice _ lasts).mp all with ⟨f, -, same⟩ | ⟨t, one, same⟩
      · cases same
      · cases same
        obtain ⟨first, evaluates, same⟩ := evaluatesAll_choice.mp values
        cases first with
        | error f => cases same
        | ok v =>
          cases same
          have tries : host.Tries own env e others w (.ok v) _ := .yields one evaluates rfl
          rcases (direct_look rfl).mp direct with ⟨holds, rfl, rfl⟩ | ⟨isNil, scope, w₂, opened, rest⟩
          · exact Or.inr (Or.inl ⟨v, tries, holds, rfl⟩)
          · exact Or.inr (Or.inr ⟨v, _, scope, w₂, tries, isNil, opened, rest⟩)
  · have operands {t : Resolved} {w₁ : World σ}
        (one : host.Resolves env e w.identified (.ok t) w₁) :=
      (resolvesAll_choice (Library.disjunction others) lasts).mpr (Or.inr ⟨t, one, rfl⟩)
    rintro (⟨f, tries, rfl⟩ | ⟨v, tries, holds, rfl⟩ | ⟨v, w₁, scope, w₂, tries, isNil, opened, rest⟩)
    · cases tries with
      | unresolved one => exact .unresolved ((resolvesAll_choice _ lasts).mpr (Or.inl ⟨f, one, rfl⟩))
      | fails one evaluates =>
        exact .fails (operands one) (evaluatesAll_choice.mpr ⟨_, evaluates, rfl⟩)
    · cases tries with
      | yields one evaluates look =>
        refine .enters (operands one) (evaluatesAll_choice.mpr ⟨_, evaluates, rfl⟩) ?_
        obtain ⟨rfl, rfl⟩ := Prod.mk.inj look
        exact (direct_look rfl).mpr (Or.inl ⟨holds, rfl, rfl⟩)
    · cases tries with
      | yields one evaluates look =>
        refine .enters (operands one) (evaluatesAll_choice.mpr ⟨_, evaluates, rfl⟩) ?_
        obtain ⟨rfl, rfl⟩ := Prod.mk.inj look
        exact (direct_look rfl).mpr (Or.inr ⟨isNil, scope, w₂, opened, rest⟩)

/-- What an operand leaves behind is sound, and the running closure is still what it was. -/
theorem Tries.steadfast (writes : host.Writes roots False keeps) (sound : w.Sound roots keeps)
    (genuine : env.Genuine roots w.scopes) (held : ∀ x ∈ e :: others, x.Held roots w.scopes)
    (bound : w.scopes.get? env Symbol.selfName = some own) {r : Except Fault Value}
    (tries : host.Tries own env e others w r w') :
    w.Follows roots False keeps w' ∧ ∀ v, r = .ok v → v.Held roots w'.scopes := by
  obtain ⟨first, behind⟩ := List.forall_mem_cons.mp held
  have start : w.Follows roots False keeps w.identified := (World.Follows.refl sound).identified
  cases tries with
  | unresolved resolves =>
    exact ⟨start.trans sound (resolves.steadfast writes start.sound genuine first).1, nofun⟩
  | fails resolves evaluates =>
    obtain ⟨before, tree⟩ := resolves.steadfast writes start.sound genuine first
    obtain ⟨after, -⟩ := evaluates.steadfast writes before.identified.sound (tree _ rfl)
    exact ⟨start.trans sound (before.identified.trans start.sound after), nofun⟩
  | @yields t v look w₁ w₂ w' resolves evaluates opened =>
    obtain ⟨before, tree⟩ := resolves.steadfast writes start.sound genuine first
    obtain ⟨after, value⟩ := evaluates.steadfast writes before.identified.sound (tree _ rfl)
    have reached := start.trans sound (before.identified.trans start.sound after)
    have genuine := reached.genuine genuine
    have kept : Value.Held roots w₂.scopes
        (.callable (.closure (.keeping w.closures env others))) :=
      .closure rfl (Library.disjunction_alike (Value.heldAll.mpr (reached.heldAll behind)))
        ⟨rfl, genuine⟩
    have handed : Value.Held roots w₂.scopes own := reached.held (sound.scopes.find? bound)
    have args : ∀ x ∈ [own, v, .callable (.closure (.keeping w.closures env others))],
        x.Held roots w₂.scopes := by
      intro x member
      rcases List.mem_cons.mp member with rfl | member
      · exact handed
      rcases List.mem_cons.mp member with rfl | member
      · exact value _ rfl
      · exact List.mem_singleton.mp member ▸ kept
    obtain ⟨opens, -⟩ := writes.handed ["v", "k"] .ignored reached.sound genuine args opened
    refine ⟨reached.trans sound opens, ?_⟩
    rintro u same
    cases same
    exact opens.held (value _ rfl)

/-- Behind an operand that is nil, all is as it was in front of it. -/
theorem Tries.hands_on (writes : host.Writes roots False keeps) (sound : w.Sound roots keeps)
    (genuine : env.Genuine roots w.scopes) (held : ∀ x ∈ e :: others, x.Held roots w.scopes)
    (bound : w.scopes.get? env Symbol.selfName = some own)
    (tries : host.Tries own env e others w (.ok v) w₁)
    (opened : w₁.openChild env (Table.ofEntries [(Symbol.selfName, own)]) = (scope, w')) :
    (w.Follows roots False keeps w₁ ∧ w₁.Follows roots False keeps w') ∧
      scope.Genuine roots w'.scopes ∧ (∀ x ∈ others, x.Held roots w'.scopes) ∧
      w'.scopes.get? scope Symbol.selfName = some own := by
  obtain ⟨reached, -⟩ := tries.steadfast writes sound genuine held bound
  have handed : ∀ x ∈ [own], x.Held roots w₁.scopes := by
    intro x member
    obtain rfl := List.mem_singleton.mp member
    exact reached.held (sound.scopes.find? bound)
  obtain ⟨opens, inner⟩ := writes.handed [] .ignored reached.sound
    (reached.genuine genuine) handed opened
  exact ⟨⟨reached, opens⟩, inner,
    opens.heldAll (reached.heldAll (List.forall_mem_cons.mp held).2), get?_opened opened rfl⟩

/-- By induction on the operands: behind the first one stands the disjunction of the others, in the
scope that hands the running closure on. -/
theorem direct_disjunction (writes : host.Writes roots False keeps) (sound : w.Sound roots keeps)
    (genuine : env.Genuine roots w.scopes) (held : ∀ e ∈ es, e.Held roots w.scopes)
    (bound : w.scopes.get? env Symbol.selfName = some own) {r : Except Fault Value} :
    host.Direct env (Library.disjunction es) w r w' ↔ host.Disjoins own env es w r w' := by
  induction es generalizing env w r w' with
  | nil =>
    refine (direct_of_resolves (resolves_atom (v := .nil) trivial)).trans ⟨?_, ?_⟩
    · rintro ⟨rfl, rfl⟩
      exact ⟨env, [], w', .here, .none⟩
    · rintro ⟨scope, rest, w₁, passes, decides⟩
      cases passes
      cases decides
      exact ⟨rfl, rfl⟩
  | cons e es ih =>
    cases es with
    | nil =>
      refine ⟨fun direct => ⟨env, [e], w, .here, .last direct⟩, ?_⟩
      rintro ⟨scope, rest, w₁, passes, decides⟩
      cases passes
      cases decides with
      | last direct => exact direct
    | cons e' more =>
      have lasts {t : Resolved} {w₁ : World σ}
          (resolves : host.Resolves env e w.identified (.ok t) w₁) :
          w₁.scopes.get? env Symbol.selfName = some own := by
        have start : w.Follows roots False keeps w.identified := (World.Follows.refl sound).identified
        obtain ⟨before, -⟩ := resolves.steadfast writes start.sound genuine (held e List.mem_cons_self)
        exact (start.trans sound before).kept.get? not_false genuine bound
      have behind {v : Value} {w₁ w₂ : World σ} {inner : Environment} {r : Except Fault Value}
          {w' : World σ} (tries : host.Tries own env e (e' :: more) w (.ok v) w₁)
          (opened : w₁.openChild env (Table.ofEntries [(Symbol.selfName, own)]) = (inner, w₂)) :
          host.Direct inner (Library.disjunction (e' :: more)) w₂ r w' ↔
            host.Disjoins own inner (e' :: more) w₂ r w' := by
        obtain ⟨⟨-, opens⟩, genuine, held, bound⟩ :=
          tries.hands_on writes sound genuine held bound opened
        exact ih opens.sound genuine held bound
      rw [disjunction_next, direct_choice lasts]
      constructor
      · rintro (⟨f, tries, rfl⟩ | ⟨v, tries, holds, rfl⟩ |
          ⟨v, w₁, inner, w₂, tries, isNil, opened, direct⟩)
        · exact ⟨env, _, w, .here, .fails tries⟩
        · exact ⟨env, _, w, .here, .holds tries holds⟩
        · obtain ⟨scope, rest, w₃, passes, decides⟩ := (behind tries opened).mp direct
          exact ⟨scope, rest, w₃, .next tries isNil opened passes, decides⟩
      · rintro ⟨scope, rest, w₃, passes, decides⟩
        cases passes with
        | here =>
          cases decides with
          | fails tries => exact Or.inl ⟨_, tries, rfl⟩
          | holds tries holds => exact Or.inr (Or.inl ⟨_, tries, holds, rfl⟩)
        | next tries isNil opened passes =>
          exact Or.inr (Or.inr ⟨_, _, _, _, tries, isNil, opened,
            (behind tries opened).mpr ⟨scope, rest, w₃, passes, decides⟩⟩)

/-- By induction on the operands that have been nil: each of the scopes that hand the running closure
on goes unnoticed until the last one of them is at work. -/
theorem Passes.unnoticed {rest : List Value} (writes : host.Writes roots False keeps)
    (passes : host.Passes own env es w scope rest w') (sound : w.Sound roots keeps)
    (genuine : env.Genuine roots w.scopes) (held : ∀ e ∈ es, e.Held roots w.scopes)
    (bound : w.scopes.get? env Symbol.selfName = some own) :
    w.Follows roots False keeps w' ∧
      ∀ name, w'.scopes.get? scope name = w'.scopes.get? env name := by
  induction passes with
  | here => exact ⟨.refl sound, fun _ => rfl⟩
  | next tries isNil opened _ ih =>
    obtain ⟨⟨reached, opens⟩, inner, others, handed⟩ :=
      tries.hands_on writes sound genuine held bound opened
    obtain ⟨follows, same⟩ := ih opens.sound inner others handed
    refine ⟨reached.trans sound (opens.trans reached.sound follows), fun name => ?_⟩
    exact (same name).trans (Host.unnoticed reached.sound (reached.genuine genuine)
      (reached.kept.get? not_false genuine bound) opened opens follows name)

/-- The connectives mean what they should, whatever else is bound. Where the name of the running
closure resolves, `and` evaluates its operands in its own environment up to the first that is nil, and
`or` up to the first that is not. Each operand is compiled in the world that the one before it has left,
none is evaluated twice, and a failure is passed on. When `or` comes to an operand, all names resolve in
the scope of that operand as they do in the environment of the whole. -/
theorem Sound.connectives_short_circuit (sound : host.Sound)
    (writes : host.Writes roots False keeps) (start : w.Sound roots keeps)
    (genuine : env.Genuine roots w.scopes) (held : ∀ e ∈ es, e.Held roots w.scopes)
    (bound : w.scopes.get? env Symbol.selfName = some own) (cap : BacktraceCap) :
    (∀ operator, w.scopes.operator env operator = .ok (.expander .conjunction) → ∀ r w',
      host.EndsWith env (Library.apply operator es) cap w r w' ↔ host.Conjoins env es w r w') ∧
    (∀ operator, w.scopes.operator env operator = .ok (.expander .disjunction) → ∀ r w',
      host.EndsWith env (Library.apply operator es) cap w r w' ↔
        host.Disjoins own env es w r w') ∧
    ∀ scope rest w', host.Passes own env es w scope rest w' →
      ∀ name, w'.scopes.get? scope name = w'.scopes.get? env name := by
  refine ⟨fun operator resolved r w' => ?_, fun operator resolved r w' => ?_,
    fun scope rest w' passes => (passes.unnoticed writes start genuine held bound).2⟩
  · refine (evaluateOnce_eq_direct sound ..).trans (Iff.trans ?_ direct_conjunction)
    exact direct_congr (resolves_expansion resolved rfl)
  · refine (evaluateOnce_eq_direct sound ..).trans
      (Iff.trans ?_ (direct_disjunction writes start genuine held bound))
    exact direct_congr (resolves_expansion resolved rfl)

end Host

namespace Extension

/-- What the names of a scope are bound to that the connectives expand into. -/
def masks : List (String × Value) :=
  [("if", .nil), ("lambda", .truth), ("call", .nil), ("v", .nil), ("k", .truth)]

/-- A new interpreter with the library, and a scope for these names. -/
def shadowing : Environment × World Log :=
  fresh.2.openChild fresh.1.root (Table.ofEntries masks)

theorem shadowing_sound : World.Sound freshRoots (fun _ _ => True) shadowing.2 ∧
    shadowing.1.Genuine freshRoots shadowing.2.scopes := by
  have session := fresh_sound
  have markers : ∀ entry ∈ masks, entry.2.Held freshRoots fresh.2.scopes := by
    intro entry member
    simp only [masks, List.mem_cons, List.not_mem_nil, or_false] at member
    rcases member with rfl | rfl | rfl | rfl | rfl
    · exact .nil
    · exact .truth
    · exact .nil
    · exact .nil
    · exact .truth
  have scopes : (fresh.2.scopes.openChild fresh.1.root (Table.ofEntries masks)).2.Sound freshRoots :=
    session.world.scopes.openChild fun found => markers _ (Table.mem_of_ofEntries_get found)
  have more : (fresh.2.scopes.openChild fresh.1.root (Table.ofEntries masks)).2.tables.size =
      fresh.2.scopes.tables.size + 1 := Scopes.tables_openChild
  refine ⟨⟨scopes, trivial⟩, session.root.enter ?_ (Nat.lt_of_succ_le (Nat.le_of_eq more.symm))⟩
  exact fun root => Nat.lt_irrefl _ (session.world.scopes.opened root)

end Extension

open Extension in
/-- The connectives among names that hide those they expand into: the second operand of
`or` is the name of the function that keeps it; `and` stops at its second operand, so the third one may
be unbound. -/
theorem Host.connectives_short_circuit_shadowed :
    (Host.none Log).Sound ∧ (Host.none Log).Writes freshRoots False (fun _ _ => True) ∧
    World.Sound freshRoots (fun _ _ => True) shadowing.2 ∧
    shadowing.1.Genuine freshRoots shadowing.2.scopes ∧
    shadowing.2.scopes.get? shadowing.1 Symbol.selfName = some .nil ∧ ∃ w w',
      (Host.none Log).Disjoins .nil shadowing.1 [.symbol "v", .symbol "k"] shadowing.2
        (.ok .truth) w ∧
      (Host.none Log).Conjoins shadowing.1 [.symbol "k", .symbol "v", .symbol "free"]
        shadowing.2 (.ok .nil) w' := by
  obtain ⟨sound, genuine⟩ := shadowing_sound
  have names (es : List String) : ∀ e ∈ es.map Value.symbol, e.Held freshRoots shadowing.2.scopes := by
    intro e member
    obtain ⟨name, -, rfl⟩ := List.mem_map.mp member
    exact .symbol name
  have bound : shadowing.2.scopes.get? shadowing.1 Symbol.selfName = some .nil := rfl
  obtain ⟨-, disjunction, -⟩ := Host.Sound.connectives_short_circuit none_sound none_writes sound
    genuine (names ["v", "k"]) bound 10
  obtain ⟨conjunction, -, -⟩ := Host.Sound.connectives_short_circuit none_sound none_writes sound
    genuine (names ["k", "v", "free"]) bound 10
  exact ⟨none_sound, none_writes, sound, genuine, bound, _, _,
    (disjunction (.symbol "or") rfl _ _).mp ⟨_, ⟨20, rfl⟩, rfl⟩,
    (conjunction (.symbol "and") rfl _ _).mp ⟨_, ⟨20, rfl⟩, rfl⟩⟩

end CooperativeLisp

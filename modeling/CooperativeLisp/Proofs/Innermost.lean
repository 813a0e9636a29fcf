import CooperativeLisp.Proofs.Connectives

/-!
The name of the running closure. Every invocation binds it anew, and the binding forms and `or` are
expanded into functions, so each of them has to hand it on. An expression stands in another at a
position; what is done on the way to it is followed step by step, from a form to its operands, branches
and bodies. Main statement: wherever the evaluation of an expression comes to one that stands in it, at
any depth, the name stands for what it stands for outside, and in the body of a function for the
function itself, unless it is a parameter there.
-/

namespace CooperativeLisp

variable {σ : Type} {roots : ScopeId → Prop} {keeps : Scopes → σ → Prop}

/-- What is about to be done in the course of an evaluation: an expression is resolved, or the tree that
it has become is evaluated. -/
inductive Point where
  | resolves (env : Environment) (e : Value)
  | evaluates (env : Environment) (e : Value) (t : Resolved)

/-- An expression that is resolved as another one: an operator that is computed is an argument of the
native that calls, and the binding forms and connectives are what they expand to. -/
inductive Scopes.Replaces (scopes : Scopes) (env : Environment) : Value → Value → Prop
  | computed {operator : Value} {operands : List Value} : operator.IsComputed →
      Replaces scopes env (Library.apply operator operands)
        (Library.apply Engine.callNative (operator :: operands))
  | expands {operator e : Value} {operands : List Value} {x : Expander} :
      scopes.operator env operator = .ok (.expander x) → x.expand? operands = some (.ok e) →
      Replaces scopes env (Library.apply operator operands) e

/-- The function that looks at the value of an operand of `or`. -/
def Closure.looking (identity : Nat) (env : Environment) : Closure where
  identity := identity
  params := [Symbol.selfName, "v", "k"]
  rest := .ignored
  body := Library.apply (.form .conditional)
    [.symbol "v", .symbol "v", .list [.symbol "k", Library.self]]
  env := env

namespace Host

/-- An expression whose turn it is is resolved, and right after that its tree is evaluated. -/
inductive Begins (host : Host σ) (env : Environment) (e : Value) (w : World σ) :
    Point → World σ → Prop
  | resolves : Begins host env e w (.resolves env e) w
  | evaluates {t : Resolved} {w' : World σ} : host.Resolves env e w (.ok t) w' →
      Begins host env e w (.evaluates env e t) w'

/-- From an expression to one that stands directly in it. Operands are resolved with what they are
operands of, and so are tests and the first expressions of sequences; whatever else stands in an
expression has its turn when the tree of that is evaluated. -/
inductive Descends (host : Host σ) : Point → World σ → Point → World σ → Prop
  | replaced {env : Environment} {e e' : Value} {w : World σ} : w.scopes.Replaces env e e' →
      Descends host (.resolves env e) w (.resolves env e') w
  | replacedTree {env : Environment} {e e' : Value} {t : Resolved} {w : World σ} :
      w.scopes.Replaces env e e' → Descends host (.evaluates env e t) w (.evaluates env e' t) w
  /-- an operand of a call, once those behind it are resolved -/
  | operand {env : Environment} {operator e : Value} {before after : List Value} {c : Callable}
      {ts : List Resolved} {w w' : World σ} : w.scopes.operator env operator = .ok c →
      c.IsFunction → host.ResolvesAll env after w (.ok ts) w' →
      Descends host (.resolves env (Library.apply operator (before ++ e :: after))) w
        (.resolves env e) w'
  /-- an operand of a call, once those in front of it are evaluated -/
  | operandTree {env : Environment} {operator e origin : Value} {before after vs : List Value}
      {c : Callable} {ts us : List Resolved} {t : Resolved} {w w' : World σ} :
      w.scopes.operator env operator = .ok c → c.IsFunction → ts.length = before.length →
      host.EvaluatesAll ts w (.ok vs) w' →
      Descends host (.evaluates env (Library.apply operator (before ++ e :: after))
          (.application (.callable c) (ts ++ t :: us) origin)) w (.evaluates env e t) w'
  /-- the test of `if` -/
  | test {env : Environment} {operator c t : Value} {more : List Value} {w : World σ} :
      w.scopes.operator env operator = .ok (.form .conditional) → more.length ≤ 1 →
      Descends host (.resolves env (Library.apply operator (c :: t :: more))) w
        (.resolves env c) w
  | testTree {env : Environment} {operator c t e : Value} {more : List Value} {u : Resolved}
      {w : World σ} : w.scopes.operator env operator = .ok (.form .conditional) →
      Descends host (.evaluates env (Library.apply operator (c :: more))
          (.conditional env (c :: more) t e u)) w (.evaluates env c u) w
  /-- a branch of `if`, once the test is evaluated -/
  | branch {env : Environment} {operator t e v : Value} {operands : List Value} {u : Resolved}
      {p : Point} {w w₁ w' : World σ} :
      w.scopes.operator env operator = .ok (.form .conditional) →
      host.Evaluates u w (.ok v) w₁ → host.Begins env (if v.isTrue then t else e) w₁ p w' →
      Descends host (.evaluates env (Library.apply operator operands)
          (.conditional env operands t e u)) w p w'
  /-- the first expression of `progn` -/
  | first {env : Environment} {operator e : Value} {es : List Value} {w : World σ} :
      w.scopes.operator env operator = .ok (.form .sequence) →
      Descends host (.resolves env (Library.apply operator (e :: es))) w (.resolves env e) w
  | firstTree {env : Environment} {operator e : Value} {es : List Value} {u : Resolved}
      {w : World σ} : w.scopes.operator env operator = .ok (.form .sequence) →
      Descends host (.evaluates env (Library.apply operator (e :: es))
          (.sequence env e es u)) w (.evaluates env e u) w
  /-- an expression of `progn` behind the first one, once those in front of it are evaluated -/
  | later {env : Environment} {operator first e v : Value} {before after : List Value}
      {u : Resolved} {p : Point} {w w₁ w₂ w' : World σ} :
      w.scopes.operator env operator = .ok (.form .sequence) →
      host.Evaluates u w (.ok v) w₁ → host.Runs env before w₁ w₂ → host.Begins env e w₂ p w' →
      Descends host (.evaluates env (Library.apply operator (first :: (before ++ e :: after)))
          (.sequence env first (before ++ e :: after) u)) w p w'
  /-- a form in the body of a function that takes the running closure and is applied to it at once, as
  those that `let` expands into, once the operands and the forms in front of it are evaluated -/
  | body {env scope : Environment} {e origin : Value} {params inits before after : List Value}
      {l : LambdaList} {identity : Nat} {ts : List Resolved} {args : List Value} {p : Point}
      {w w₁ w₂ w₃ w' : World σ} : LambdaList.read (.list (Library.self :: params)) = .ok l →
      host.EvaluatesAll ts w (.ok args) w₁ →
      w₁.openChild env (Table.ofEntries (l.entries args)) = (scope, w₂) →
      host.Runs scope before w₂ w₃ → host.Begins scope e w₃ p w' →
      Descends host (.evaluates env (Library.apply
            (Library.lambda (Library.self :: params) (before ++ e :: after))
            (Library.self :: inits))
          (.application (.callable (.native (.primitive .call)))
            (.value (.callable (.closure ⟨identity, l.params, l.rest,
              Engine.bodyOf (before ++ e :: after), env⟩)) :: ts) origin)) w p w'
  /-- what stands behind an operand of `or`, once the operand is evaluated and is nil -/
  | others {env look scope : Environment} {e rest own v origin : Value} {u : Resolved}
      {looking identity : Nat} {p : Point} {w w₁ w₂ w₃ w' : World σ} :
      host.Evaluates u w (.ok v) w₁ → v.isTrue = false →
      w₁.openChild env (Table.ofEntries [(Symbol.selfName, own), ("v", v), ("k", .callable (.closure
        ⟨identity, [Symbol.selfName], .ignored, rest, env⟩))]) = (look, w₂) →
      w₂.openChild env (Table.ofEntries [(Symbol.selfName, own)]) = (scope, w₃) →
      host.Begins scope rest w₃ p w' →
      Descends host (.evaluates env (Library.choice e rest)
          (.application (.callable (.native (.primitive .call)))
            [.value (.callable (.closure (.looking looking env))), .value own, u,
              .value (.callable (.closure ⟨identity, [Symbol.selfName], .ignored, rest, env⟩))] origin)) w p w'

/-- The evaluation of an expression comes to an expression that stands in it, at any depth. -/
inductive Comes (host : Host σ) (env : Environment) (e : Value) (w : World σ) :
    Point → World σ → Prop
  | begins {p : Point} {w' : World σ} : host.Begins env e w p w' → Comes host env e w p w'
  | descends {p q : Point} {w₁ w' : World σ} : Comes host env e w p w₁ →
      host.Descends p w₁ q w' → Comes host env e w q w'

end Host

/-! ### Parameters -/

namespace LambdaList

variable {seen : List String} {vs : List Value} {l : LambdaList}

theorem readRest_fresh {rest : Rest} (read : readRest seen vs = .ok rest) :
    ∀ name ∈ rest.name?, name ∉ seen := by
  cases vs with
  | nil =>
    cases read
    exact nofun
  | cons v more =>
    unfold readRest at read
    obtain ⟨name, -, read⟩ := Error.of_bind_ok read
    dsimp only at read
    split at read
    · cases read
    cases more with
    | cons extra more => cases read
    | nil =>
      dsimp only at read
      split at read
      · cases read
      · rename_i unseen
        cases read
        rintro _ ⟨rfl⟩
        simpa using unseen

/-- None of the parameters that are still to be read has been seen. -/
theorem readAfter_fresh (read : readAfter seen vs = .ok l) :
    ∃ names, l.params = seen.reverse ++ names ∧ (∀ name ∈ names, name ∉ seen) ∧
      ∀ name ∈ l.rest.name?, name ∉ seen := by
  induction vs generalizing seen with
  | nil =>
    cases read
    exact ⟨[], (List.append_nil _).symm, nofun, nofun⟩
  | cons v more ih =>
    unfold readAfter at read
    obtain ⟨name, -, read⟩ := Error.of_bind_ok read
    split at read
    · obtain ⟨rest, named, read⟩ := Error.of_bind_ok read
      cases read
      exact ⟨[], (List.append_nil _).symm, nofun, readRest_fresh named⟩
    dsimp only at read
    split at read
    · cases read
    split at read
    · cases read
    · rename_i unseen
      obtain ⟨names, params, fresh, rest⟩ := ih read
      refine ⟨name :: names, ?_, ?_, ?_⟩
      · rw [params, List.reverse_cons, List.append_assoc, List.singleton_append]
      · refine List.forall_mem_cons.mpr ⟨by simpa using unseen, fun other member before => ?_⟩
        exact fresh other member (List.mem_cons_of_mem _ before)
      · exact fun other named before => rest other named (List.mem_cons_of_mem _ before)

/-- Entries are those of the parameters, and perhaps one for the arguments behind them. -/
theorem entries_names {args : List Value} {entry : String × Value}
    (member : entry ∈ l.entries args) : entry.1 ∈ l.params ∨ entry.1 ∈ l.rest.name? := by
  rcases List.mem_append.mp member with positional | behind
  · exact Or.inl (List.of_mem_zip positional).1
  · revert behind
    cases l.rest.name? with
    | none => exact nofun
    | some name =>
      intro behind
      obtain rfl := List.mem_singleton.mp behind
      exact Or.inr rfl

end LambdaList

/-- What the first entry binds, if no other entry has its name. -/
theorem lookup_reverse_cons {name : String} {v : Value} {entries : List (String × Value)}
    (others : ∀ entry ∈ entries, entry.1 ≠ name) :
    ((name, v) :: entries).reverse.lookup name = some v := by
  have none : entries.reverse.lookup name = none := by
    refine List.lookup_eq_none_iff.mpr fun entry member => ?_
    exact bne_iff_ne.mpr (others entry (List.mem_reverse.mp member)).symm
  rw [List.reverse_cons, List.lookup_append, none]
  simp

/-- A function that takes the running closure as its first parameter binds it to the first argument:
no other parameter may have its name. -/
theorem LambdaList.entries_self {params : List Value} {l : LambdaList}
    (read : read (.list (Library.self :: params)) = .ok l) (own : Value) (args : List Value) :
    (∃ names, l.params = Symbol.selfName :: names) ∧
      (l.entries (own :: args)).reverse.lookup Symbol.selfName = some own := by
  obtain ⟨names, first, fresh, rest⟩ := readAfter_fresh (read_self.symm.trans read)
  have first : l.params = Symbol.selfName :: names := first
  refine ⟨⟨names, first⟩, ?_⟩
  obtain ⟨params, more⟩ := l
  subst first
  have others : ∀ entry ∈ LambdaList.entries ⟨names, more⟩ args, entry.1 ≠ Symbol.selfName := by
    intro entry member same
    rcases entries_names member with positional | behind
    · exact fresh _ positional (List.mem_singleton.mpr same)
    · exact rest _ behind (List.mem_singleton.mpr same)
  have split : LambdaList.entries ⟨Symbol.selfName :: names, more⟩ (own :: args) =
      (Symbol.selfName, own) :: LambdaList.entries ⟨names, more⟩ args := by
    simp [LambdaList.entries]
  rw [split]
  exact lookup_reverse_cons others

/-! ### Where the name stands for a value -/

/-- In a sound world, an expression stands in an environment where the name of the running closure has
a value. -/
structure World.Situates (roots : ScopeId → Prop) (keeps : Scopes → σ → Prop) (own : Value)
    (w : World σ) (env : Environment) (e : Value) : Prop where
  sound : w.Sound roots keeps
  genuine : env.Genuine roots w.scopes
  held : e.Held roots w.scopes
  bound : w.scopes.get? env Symbol.selfName = some own

/-- What is resolved stands in such an environment; a tree that is evaluated was resolved there, some
time ago. -/
def Point.Situated (host : Host σ) (roots : ScopeId → Prop) (keeps : Scopes → σ → Prop)
    (own : Value) : Point → World σ → Prop
  | .resolves env e, w => w.Situates roots keeps own env e
  | .evaluates env e t, w => ∃ w₀ w₁, w₀.Situates roots keeps own env e ∧
      host.Resolves env e w₀ (.ok t) w₁ ∧ w₁.Follows roots False keeps w

variable {host : Host σ} {env scope : Environment} {own operator e e' v : Value}
variable {operands es : List Value} {c : Callable} {t u : Resolved} {w w' w₁ w₂ : World σ}

namespace World.Situates

theorem follows (situated : w.Situates roots keeps own env e)
    (follows : w.Follows roots False keeps w') : w'.Situates roots keeps own env e where
  sound := follows.sound
  genuine := follows.genuine situated.genuine
  held := follows.held situated.held
  bound := follows.kept.get? not_false situated.genuine situated.bound

/-- Another expression in the same environment. -/
theorem of_held (situated : w.Situates roots keeps own env e) (held : e'.Held roots w.scopes) :
    w.Situates roots keeps own env e' :=
  { situated with held }

theorem resolves (writes : host.Writes roots False keeps) (situated : w.Situates roots keeps own env e)
    (resolves : host.Resolves env e w (.ok t) w') :
    w.Follows roots False keeps w' ∧ t.Held roots w'.scopes := by
  obtain ⟨follows, held⟩ := resolves.steadfast writes situated.sound situated.genuine situated.held
  exact ⟨follows, held t rfl⟩

/-- The operands of an application stand where it stands. -/
theorem operand (situated : w.Situates roots keeps own env (Library.apply operator operands)) :
    ∀ e ∈ operator :: operands, w.Situates roots keeps own env e := by
  intro e member
  cases situated.held with
  | list all => exact situated.of_held (Value.heldAll.mp all e member)

end World.Situates

/-- What an operator stands for lasts. -/
theorem Scopes.Kept.callable {scopes scopes' : Scopes} (kept : scopes.Kept roots False scopes')
    (genuine : env.Genuine roots scopes) (found : scopes.operator env operator = .ok c) :
    scopes'.operator env operator = .ok c := by
  cases operator with
  | symbol name =>
    simp only [Scopes.operator] at found ⊢
    cases bound : scopes.get? env name with
    | none =>
      rw [bound] at found
      cases found
    | some v =>
      rw [bound] at found
      rwa [kept.get? not_false genuine bound]
  | _ => exact found

/-- An operator that an application was resolved by stood for the same callable then. -/
theorem Host.Resolves.operator_before (resolves : host.Resolves env (Library.apply operator operands) w
    (.ok t) w₁) (kept : w.scopes.Kept roots False w'.scopes) (genuine : env.Genuine roots w.scopes)
    (later : w'.scopes.operator env operator = .ok c) : w.scopes.operator env operator = .ok c := by
  cases before : w.scopes.operator env operator with
  | ok d => exact (kept.callable genuine before).symm.trans later
  | error f =>
    generalize ended : (Except.ok t : Except Fault Resolved) = r at resolves
    cases resolves with
    | atom plain => exact plain.elim
    | noOperator => cases ended
    | computed computes =>
      obtain ⟨first, rest, rfl⟩ := computes
      cases later
    | expands found => cases before.symm.trans found
    | form found => cases before.symm.trans found
    | formArity found => cases before.symm.trans found
    | expandsNot found => cases before.symm.trans found
    | application found => cases before.symm.trans found

/-! ### What a tree says of the expression that has become it -/

theorem Resolved.sequence_inj (es : List Value)
    (same : Resolved.sequence env e es t = Resolved.sequence env e es u) : t = u := by
  have folds : ∀ (next : List Value) (origin : Value) {t u : Resolved},
      next.foldl (fun t next => .application (.sequel env next) [t] origin) t =
        next.foldl (fun t next => .application (.sequel env next) [t] origin) u → t = u := by
    intro next origin
    induction next with
    | nil => exact id
    | cons e next ih =>
      intro t u same
      cases ih same
      rfl
  exact folds es _ same

namespace Host

theorem ResolvesAll.of_ok_append {fs : List Value} {ts : List Resolved}
    (whole : host.ResolvesAll env (es ++ fs) w (.ok ts) w') :
    ∃ us vs w₁, host.ResolvesAll env fs w (.ok vs) w₁ ∧ host.ResolvesAll env es w₁ (.ok us) w' ∧
      ts = us ++ vs := by
  rcases whole.of_append with ⟨f, same, -⟩ | ⟨vs, w₁, r, last, first, same⟩
  · cases same
  · cases r with
    | error f => cases same
    | ok us =>
      cases same
      exact ⟨us, vs, w₁, last, first, rfl⟩

/-- An operand was resolved once those behind it were, and before those in front of it. -/
theorem Resolves.of_operand {origin : Value} {before after : List Value} {ts us : List Resolved}
    (resolved : w.scopes.operator env operator = .ok c) (function : c.IsFunction)
    (count : ts.length = before.length)
    (resolves : host.Resolves env (Library.apply operator (before ++ e :: after)) w
      (.ok (.application (.callable c) (ts ++ t :: us) origin)) w') :
    ∃ w₁ w₂, host.ResolvesAll env after w (.ok us) w₁ ∧ host.Resolves env e w₁ (.ok t) w₂ ∧
      host.ResolvesAll env before w₂ (.ok ts) w' := by
  obtain ⟨all, operands, same⟩ := (resolves_function resolved function).mp resolves
  cases all with
  | error f => cases same
  | ok trees =>
    cases same
    obtain ⟨ts', us', w₂, last, first, same⟩ := operands.of_ok_append
    obtain ⟨rfl, rest⟩ := List.append_inj same (count.trans (first.length rfl).symm)
    subst rest
    rcases resolvesAll_cons.mp last with ⟨f, -, same⟩ | ⟨vs, w₁, one, behind, tree, same⟩
    · cases same
    · cases one with
      | error f => cases same
      | ok t' =>
        cases same
        exact ⟨w₁, w₂, behind, tree, first⟩

theorem Resolves.of_conditional {x y : Value}
    (resolved : w.scopes.operator env operator = .ok (.form .conditional))
    (resolves : host.Resolves env (Library.apply operator (e :: es)) w
      (.ok (.conditional env (e :: es) x y u)) w') : host.Resolves env e w (.ok u) w' := by
  rcases (resolves_operator resolved).mp resolves with ⟨-, applies⟩ | ⟨-, same, -⟩
  · generalize ended : (Except.ok (Resolved.conditional env (e :: es) x y u) :
      Except Fault Resolved) = r at applies
    cases applies with
    | @choice _ _ _ _ _ one test | @fullChoice _ _ _ _ _ _ one test =>
      cases one with
      | error f => cases ended
      | ok t =>
        cases ended
        exact test
    | manyBranches => cases ended
  · cases same

theorem Resolves.of_sequence
    (resolved : w.scopes.operator env operator = .ok (.form .sequence))
    (resolves : host.Resolves env (Library.apply operator (e :: es)) w
      (.ok (.sequence env e es u)) w') : host.Resolves env e w (.ok u) w' := by
  rcases (resolves_operator resolved).mp resolves with ⟨-, applies⟩ | ⟨-, same, -⟩
  · generalize ended : (Except.ok (Resolved.sequence env e es u) : Except Fault Resolved) = r
      at applies
    cases applies with
    | @sequence _ _ _ _ _ one first =>
      cases one with
      | error f => cases ended
      | ok t =>
        obtain rfl := Resolved.sequence_inj es (Except.ok.inj ended)
        exact first
  · cases same

/-- The first argument of a function that takes the running closure is the running closure. -/
theorem Resolves.of_applied (writes : host.Writes roots False keeps) {operation : Operation}
    {f : Resolved} {origin : Value} (params : List Value) {inits body : List Value}
    {ts : List Resolved} (situated : w.Situates roots keeps own env
      (Library.apply (Library.lambda (Library.self :: params) body) (Library.self :: inits)))
    (resolves : host.Resolves env
      (Library.apply (Library.lambda (Library.self :: params) body) (Library.self :: inits)) w
      (.ok (.application operation (f :: ts) origin)) w') : ∃ us, ts = .value own :: us := by
  rcases resolves_applied.mp resolves with ⟨f', -, same⟩ | ⟨trees, w₁, operands, -, same⟩
  · cases same
  · have arguments : trees = ts := by
      cases made : Closure.make w₁.closures (.list (Library.self :: params)) (Engine.bodyOf body)
          env with
      | error e =>
        rw [made] at same
        cases same
      | ok c =>
        rw [made] at same
        cases same
        rfl
    subst arguments
    rcases resolvesAll_cons.mp operands with ⟨f', -, same⟩ | ⟨us, w₂, first, others, self, same⟩
    · cases same
    · have stands : ∀ e ∈ inits, e.Held roots w.scopes := fun e member =>
        (situated.operand e (List.mem_cons_of_mem _ (List.mem_cons_of_mem _ member))).held
      obtain ⟨follows, -⟩ := others.steadfast writes situated.sound situated.genuine stands
      have found := (situated.follows follows).bound
      obtain ⟨rfl, -⟩ := (resolves_symbol (by decide) (by decide) found).mp self
      exact ⟨us, Except.ok.inj same⟩

end Host

/-! ### From an expression to what stands in it -/

theorem Expander.admits_of_expand? {x : Expander} (expanded : x.expand? operands = some (.ok e)) :
    x.arity.Admits operands.length := by
  cases x with
  | parallelLet | serialLet =>
    cases operands with
    | nil => cases expanded
    | cons bindings body => exact Nat.succ_le_succ (Nat.zero_le _)
  | conjunction | disjunction | host => exact trivial

namespace Scopes.Replaces

theorem held {scopes : Scopes} (replaces : scopes.Replaces env e e') (held : e.Held roots scopes) :
    e'.Held roots scopes := by
  cases replaces with
  | computed =>
    cases held with
    | list all => exact .list (.cons (.native (.inl trivial)) all)
  | @expands operator e operands x resolved expanded =>
    cases held with
    | list all =>
      cases all with
      | cons _ all =>
        have related := x.expand?_alike all
        rw [expanded] at related
        cases related with
        | some same =>
          cases same with
          | ok held => exact held

/-- An expression becomes the trees of the one that it is resolved as. -/
theorem resolves (replaces : w.scopes.Replaces env e e') {r : Except Fault Resolved} :
    host.Resolves env e w r w' ↔ host.Resolves env e' w r w' := by
  cases replaces with
  | computed computes => exact Host.resolves_computed computes
  | @expands operator e operands x resolved expanded =>
    refine Host.resolves_expansion resolved ?_
    unfold Host.expansion
    rw [Arity.validate_eq_ok_iff.mpr (Expander.admits_of_expand? expanded), expanded]

/-- It was resolved as that before. -/
theorem before (replaces : w'.scopes.Replaces env e e') (resolves : host.Resolves env e w (.ok t) w₁)
    (kept : w.scopes.Kept roots False w'.scopes) (genuine : env.Genuine roots w.scopes) :
    w.scopes.Replaces env e e' := by
  cases replaces with
  | computed computes => exact .computed computes
  | expands resolved expanded =>
    exact .expands (resolves.operator_before kept genuine resolved) expanded

end Scopes.Replaces

namespace Host

theorem Begins.situated (writes : host.Writes roots False keeps) {p : Point}
    (begins : host.Begins env e w p w') (situated : w.Situates roots keeps own env e) :
    p.Situated host roots keeps own w' := by
  cases begins with
  | resolves => exact situated
  | evaluates resolves =>
    exact ⟨_, _, situated, resolves, .refl (situated.resolves writes resolves).1.sound⟩

theorem Runs.steadfast (writes : host.Writes roots False keeps) (runs : host.Runs env es w w')
    (sound : w.Sound roots keeps) (genuine : env.Genuine roots w.scopes)
    (held : ∀ e ∈ es, e.Held roots w.scopes) : w.Follows roots False keeps w' := by
  induction runs with
  | nil => exact .refl sound
  | cons direct _ ih =>
    obtain ⟨first, others⟩ := List.forall_mem_cons.mp held
    obtain ⟨before, -⟩ := direct.steadfast writes sound genuine first
    exact before.trans sound (ih before.sound (before.genuine genuine) (before.heldAll others))

end Host

namespace Point.Situated

/-- Where a tree is evaluated, the name still has its value. -/
theorem evaluates (writes : host.Writes roots False keeps)
    (situated : (evaluates env e t).Situated host roots keeps own w) :
    w.Situates roots keeps own env e ∧ t.Held roots w.scopes := by
  obtain ⟨w₀, w₁, before, resolves, follows⟩ := situated
  obtain ⟨resolved, held⟩ := before.resolves writes resolves
  exact ⟨(before.follows resolved).follows follows, follows.tree held⟩

theorem kept (writes : host.Writes roots False keeps) {w₀ : World σ}
    (before : w₀.Situates roots keeps own env e) (resolves : host.Resolves env e w₀ (.ok t) w₁)
    (follows : w₁.Follows roots False keeps w) : w₀.scopes.Kept roots False w.scopes :=
  (before.resolves writes resolves).1.kept.trans before.sound.scopes follows.kept

/-- When an application was resolved, its operator stood for what it stands for now. -/
theorem resolved (writes : host.Writes roots False keeps)
    (situated : (Point.evaluates env (Library.apply operator operands) t).Situated host roots keeps
      own w) (found : w.scopes.operator env operator = .ok c) :
    ∃ w₀ w₁, w₀.Situates roots keeps own env (Library.apply operator operands) ∧
      host.Resolves env (Library.apply operator operands) w₀ (.ok t) w₁ ∧
      w₁.Follows roots False keeps w ∧ w₀.scopes.operator env operator = .ok c := by
  obtain ⟨w₀, w₁, before, resolves, follows⟩ := situated
  exact ⟨w₀, w₁, before, resolves, follows,
    resolves.operator_before (kept writes before resolves follows) before.genuine found⟩

/-- The tree of an operand, once those in front of it are evaluated. -/
theorem operand (writes : host.Writes roots False keeps) {before after vs : List Value}
    {ts us : List Resolved} {origin : Value}
    (situated : (Point.evaluates env (Library.apply operator (before ++ e :: after))
      (.application (.callable c) (ts ++ t :: us) origin)).Situated host roots keeps own w)
    (found : w.scopes.operator env operator = .ok c) (function : c.IsFunction)
    (count : ts.length = before.length) (values : host.EvaluatesAll ts w (.ok vs) w') :
    (Point.evaluates env e t).Situated host roots keeps own w' := by
  obtain ⟨here, tree⟩ := situated.evaluates writes
  obtain ⟨held, -⟩ := Resolved.held_application.mp tree
  obtain ⟨evaluated, -⟩ := values.steadfast writes here.sound
    fun t member => held t (List.mem_append_left _ member)
  obtain ⟨w₀, w₁, start, resolves, follows, resolved⟩ := situated.resolved writes found
  have stands {e' : Value} (member : e' ∈ before ++ e :: after) :
      w₀.Situates roots keeps own env e' :=
    start.operand e' (List.mem_cons_of_mem _ member)
  obtain ⟨w₂, w₃, last, one, others⟩ := Host.Resolves.of_operand resolved function count resolves
  obtain ⟨behind, -⟩ := last.steadfast writes start.sound start.genuine fun e' member =>
    (stands (List.mem_append_right _ (List.mem_cons_of_mem _ member))).held
  have now := (stands (List.mem_append_right _ List.mem_cons_self)).follows behind
  obtain ⟨tree, -⟩ := now.resolves writes one
  obtain ⟨front, -⟩ := others.steadfast writes tree.sound (tree.genuine now.genuine)
    fun e' member => (((stands (List.mem_append_left _ member)).follows behind).follows tree).held
  exact ⟨w₂, w₃, now, one, front.trans tree.sound (follows.trans front.sound evaluated)⟩

/-- The body of a function that takes the running closure, once the operands are evaluated. -/
theorem body (writes : host.Writes roots False keeps) {operation : Operation} {f : Resolved}
    {origin : Value} {params inits forms : List Value} {l : LambdaList} {ts : List Resolved}
    {args : List Value}
    (situated : (Point.evaluates env
      (Library.apply (Library.lambda (Library.self :: params) forms) (Library.self :: inits))
      (.application operation (f :: ts) origin)).Situated host roots keeps own w)
    (read : LambdaList.read (.list (Library.self :: params)) = .ok l)
    (values : host.EvaluatesAll ts w (.ok args) w₁)
    (opened : w₁.openChild env (Table.ofEntries (l.entries args)) = (scope, w')) :
    ∀ e ∈ forms, w'.Situates roots keeps own scope e := by
  obtain ⟨here, tree⟩ := situated.evaluates writes
  obtain ⟨trees, -⟩ := Resolved.held_application.mp tree
  obtain ⟨evaluated, held⟩ := values.steadfast writes here.sound fun t member =>
    trees t (List.mem_cons_of_mem _ member)
  obtain ⟨w₀, w₄, start, resolves, -⟩ := situated
  obtain ⟨us, rfl⟩ := resolves.of_applied writes params start
  obtain ⟨rest, -, same⟩ := Host.evaluatesAll_value.mp values
  cases rest with
  | error f => cases same
  | ok vs =>
    cases same
    obtain ⟨⟨names, first⟩, last⟩ := LambdaList.entries_self read own vs
    obtain ⟨parameters, rest⟩ := l
    subst first
    have now := here.follows evaluated
    obtain ⟨opens, genuine⟩ := writes.handed names rest now.sound now.genuine (held _ rfl) opened
    intro e member
    have stands := (now.operand _ List.mem_cons_self).operand e
      (List.mem_cons_of_mem _ (List.mem_cons_of_mem _ member))
    exact ⟨opens.sound, genuine, opens.held stands.held, Host.get?_opened opened last⟩

/-- What stands behind an operand of `or`, in the scope that hands the running closure on. -/
theorem others (writes : host.Writes roots False keeps) {operation : Operation} {f : Resolved}
    {origin rest x : Value} {look : Environment} {k : Closure}
    (situated : (Point.evaluates env (Library.choice e rest) (.application operation
      [f, .value x, u, .value (.callable (.closure k))] origin)).Situated host roots keeps own w)
    (evaluates : host.Evaluates u w (.ok v) w₁)
    (looked : w₁.openChild env (Table.ofEntries [(Symbol.selfName, x), ("v", v),
      ("k", .callable (.closure k))]) = (look, w₂))
    (opened : w₂.openChild env (Table.ofEntries [(Symbol.selfName, x)]) = (scope, w')) :
    w'.Situates roots keeps own scope rest := by
  obtain ⟨here, tree⟩ := situated.evaluates writes
  obtain ⟨trees, -⟩ := Resolved.held_application.mp tree
  simp only [List.forall_mem_cons] at trees
  obtain ⟨-, -, tree, keeper, -⟩ := trees
  obtain ⟨evaluated, value⟩ := evaluates.steadfast writes here.sound tree
  obtain ⟨w₀, w₃, start, resolves, -⟩ := situated
  obtain ⟨us, same⟩ := Host.Resolves.of_applied writes [.symbol "v", .symbol "k"] start resolves
  cases same
  have now := here.follows evaluated
  have handed : own.Held roots w₁.scopes := now.sound.scopes.find? now.bound
  have arguments : ∀ y ∈ [own, v, .callable (.closure k)], y.Held roots w₁.scopes := by
    simp only [List.forall_mem_cons]
    exact ⟨handed, value _ rfl, evaluated.held (Resolved.held_value.mp keeper), List.forall_mem_nil _⟩
  obtain ⟨looks, -⟩ := writes.handed ["v", "k"] .ignored now.sound now.genuine arguments looked
  have later := now.follows looks
  obtain ⟨opens, genuine⟩ := writes.handed [] .ignored later.sound later.genuine
    (List.forall_mem_singleton.mpr (looks.held handed)) opened
  have behind : w₂.Situates roots keeps own env (Library.lambda [Library.self] [rest]) :=
    later.operand _ (by simp)
  exact ⟨opens.sound, genuine, opens.held (behind.operand rest (by simp)).held,
    Host.get?_opened opened rfl⟩

end Point.Situated

namespace Host

/-- By cases on the step: one case for every form and every position in it. -/
theorem Descends.situated (writes : host.Writes roots False keeps) {p q : Point}
    (descends : host.Descends p w q w') (situated : p.Situated host roots keeps own w) :
    q.Situated host roots keeps own w' := by
  cases descends with
  | replaced replaces => exact situated.of_held (replaces.held situated.held)
  | replacedTree replaces =>
    obtain ⟨w₀, w₁, before, resolves, follows⟩ := situated
    have replaced := replaces.before resolves
      (Point.Situated.kept writes before resolves follows) before.genuine
    exact ⟨w₀, w₁, before.of_held (replaced.held before.held), replaced.resolves.mp resolves, follows⟩
  | @operand env operator e before after c ts w w' resolved function behind =>
    have stands {e' : Value} (member : e' ∈ before ++ e :: after) :
        w.Situates roots keeps own env e' :=
      World.Situates.operand situated e' (List.mem_cons_of_mem _ member)
    obtain ⟨follows, -⟩ := behind.steadfast writes situated.sound situated.genuine fun e' member =>
      (stands (List.mem_append_right _ (List.mem_cons_of_mem _ member))).held
    exact (stands (List.mem_append_right _ List.mem_cons_self)).follows follows
  | operandTree found function count values =>
    exact situated.operand writes found function count values
  | test | first =>
    exact World.Situates.operand situated _ (List.mem_cons_of_mem _ List.mem_cons_self)
  | testTree found =>
    obtain ⟨w₀, w₁, start, resolves, follows, resolved⟩ := situated.resolved writes found
    exact ⟨w₀, w₁, start.operand _ (List.mem_cons_of_mem _ List.mem_cons_self),
      .of_conditional resolved resolves, follows⟩
  | @branch env operator t e v operands u p w w₁ w' found evaluates begins =>
    obtain ⟨here, tree⟩ := situated.evaluates writes
    obtain ⟨trees, operation, -⟩ := Resolved.held_application.mp tree
    obtain ⟨after, -⟩ := evaluates.steadfast writes here.sound (trees u List.mem_cons_self)
    refine begins.situated writes ((here.of_held ?_).follows after)
    cases operation with
    | branch _ consequent alternative =>
      split
      · exact consequent
      · exact alternative
  | firstTree found =>
    obtain ⟨w₀, w₁, start, resolves, follows, resolved⟩ := situated.resolved writes found
    exact ⟨w₀, w₁, start.operand _ (List.mem_cons_of_mem _ List.mem_cons_self),
      .of_sequence resolved resolves, follows⟩
  | @later env operator first e v before after u p w w₁ w₂ w' found evaluates runs begins =>
    obtain ⟨w₀, w₃, start, resolves, follows, resolved⟩ := situated.resolved writes found
    have stands {e' : Value} (member : e' ∈ first :: (before ++ e :: after)) :
        w₀.Situates roots keeps own env e' :=
      start.operand e' (List.mem_cons_of_mem _ member)
    obtain ⟨resolved, tree⟩ := (stands List.mem_cons_self).resolves writes
      (.of_sequence resolved resolves)
    obtain ⟨evaluated, -⟩ := evaluates.steadfast writes follows.sound (follows.tree tree)
    have reached {e' : Value} (member : e' ∈ first :: (before ++ e :: after)) :
        w₁.Situates roots keeps own env e' :=
      (((stands member).follows resolved).follows follows).follows evaluated
    have now := reached List.mem_cons_self
    have ran := runs.steadfast writes now.sound now.genuine fun e' member =>
      (reached (List.mem_cons_of_mem _ (List.mem_append_left _ member))).held
    exact begins.situated writes ((reached (List.mem_cons_of_mem _
      (List.mem_append_right _ List.mem_cons_self))).follows ran)
  | @body env scope e origin params inits before after l identity ts args p w w₁ w₂ w₃ w' read values
      opened runs begins =>
    have inside := situated.body writes read values opened
    have here := inside e (List.mem_append_right _ List.mem_cons_self)
    have ran := runs.steadfast writes here.sound here.genuine fun e' member =>
      (inside e' (List.mem_append_left _ member)).held
    exact begins.situated writes (here.follows ran)
  | others evaluates _ looked opened begins =>
    exact begins.situated writes (situated.others writes evaluates looked opened)

/-- By induction on the way: the name has its value wherever the evaluation comes to. -/
theorem Comes.situated (writes : host.Writes roots False keeps) {p : Point}
    (comes : host.Comes env e w p w') (situated : w.Situates roots keeps own env e) :
    p.Situated host roots keeps own w' := by
  induction comes with
  | begins begins => exact begins.situated writes situated
  | descends _ descends ih => exact descends.situated writes ih

/-! ### What the evaluation comes to is really evaluated -/

end Host

/-- What is to be done at a point fails. -/
def Point.Fails (host : Host σ) : Point → World σ → Fault → World σ → Prop
  | .resolves env e, w, f, w' => host.Resolves env e w (.error f) w'
  | .evaluates _ _ t, w, f, w' => host.Evaluates t w (.error f) w'

namespace Host

variable {f : Fault} {before after : List Value}

theorem Begins.fails {p : Point} (begins : host.Begins env e w p w₁) (fails : p.Fails host w₁ f w') :
    host.Direct env e w (.error f) w' := by
  cases begins with
  | resolves => exact .fails fails
  | evaluates resolves => exact .evaluates resolves fails

theorem InTurn.of_fails (after : List Value) (runs : host.Runs env before w w₁)
    (fails : host.Direct env e w₁ (.error f) w') :
    host.InTurn env (before ++ e :: after) w (.error f) w' := by
  induction runs with
  | nil =>
    cases after with
    | nil => exact .last fails
    | cons e' after => exact .fails fails
  | @cons _ _ es _ _ _ direct _ ih =>
    cases es with
    | nil => exact .next direct (ih fails)
    | cons e' es => exact .next direct (ih fails)

theorem EvaluatesAll.of_fails {ts us : List Resolved} {vs : List Value}
    (first : host.EvaluatesAll ts w (.ok vs) w₁) (fails : host.Evaluates t w₁ (.error f) w') :
    host.EvaluatesAll (ts ++ t :: us) w (.error f) w' := by
  induction ts generalizing w vs with
  | nil =>
    cases first
    exact .fails fails
  | cons t' ts ih =>
    generalize ended : (Except.ok vs : Except Fault (List Value)) = r at first
    cases first with
    | @cons _ _ _ _ _ _ rest one others =>
      cases rest with
      | error f => cases ended
      | ok vs => exact .cons one (ih others)
    | fails => cases ended

/-- By cases on the step: a failure at the end of it is one at its start. -/
theorem Descends.fails {p q : Point} (descends : host.Descends p w q w₁)
    (fails : q.Fails host w₁ f w') : p.Fails host w f w' := by
  cases descends with
  | replaced replaces => exact replaces.resolves.mpr fails
  | replacedTree => exact fails
  | operand resolved function behind =>
    exact (resolves_function resolved function).mpr
      ⟨.error f, .append_fails (.cons behind fails), rfl⟩
  | operandTree _ _ _ values => exact .operandFails (values.of_fails fails)
  | @test env operator c t more w resolved few =>
    match more, few with
    | [], _ => exact .form resolved (Nat.le_refl 2) (.choice fails)
    | [e], _ => exact .form resolved (Nat.le_succ 2) (.fullChoice fails)
  | testTree => exact evaluates_conditional.mpr (Or.inl ⟨f, fails, rfl⟩)
  | branch _ evaluates begins =>
    exact evaluates_conditional.mpr (Or.inr ⟨_, _, evaluates, begins.fails fails⟩)
  | first resolved => exact .form resolved trivial (.sequence fails)
  | @firstTree env operator e es u w resolved =>
    cases es with
    | nil => exact fails
    | cons e' es => exact evaluates_sequence.mpr (Or.inl ⟨f, fails, rfl⟩)
  | @later env operator first e v before after u p w w₂ w₃ w' resolved evaluates runs begins =>
    have inTurn := InTurn.of_fails after runs (begins.fails fails)
    cases before with
    | nil => exact evaluates_sequence.mpr (Or.inr ⟨_, _, evaluates, inTurn⟩)
    | cons e' before => exact evaluates_sequence.mpr (Or.inr ⟨_, _, evaluates, inTurn⟩)
  | @body env scope e origin params inits before after l identity ts args p w w₂ w₃ w₄ w' read values
      opened runs begins =>
    obtain ⟨⟨names, first⟩, -⟩ := LambdaList.entries_self read .nil args
    refine evaluates_made.mpr (Or.inr ⟨_, _, values, ?_⟩)
    rw [enter_handed args first, opened]
    exact direct_bodyOf.mpr (.of_fails after runs (begins.fails fails))
  | @others env look scope e rest own v origin u _ identity p w w₂ w₃ w₄ w' evaluates isNil looked
      opened begins =>
    refine evaluates_made.mpr (Or.inr ⟨_, _, evaluatesAll_choice.mpr ⟨_, evaluates, rfl⟩, ?_⟩)
    rw [enter_handed _ rfl]
    have looks := (direct_look looked).mpr (Or.inr ⟨isNil, scope, w₄, opened, begins.fails fails⟩)
    exact looked ▸ looks

/-- By induction on the way back. -/
theorem Comes.fails {p : Point} (comes : host.Comes env e w p w₁) (fails : p.Fails host w₁ f w') :
    host.Direct env e w (.error f) w' := by
  induction comes with
  | begins begins => exact begins.fails fails
  | descends _ descends ih => exact ih (descends.fails fails)

/-- In the scope of a function of which no parameter has the name of the running closure, the name
stands for the function. -/
theorem situates_body (writes : host.Writes roots False keeps) (sound : w.Sound roots keeps)
    {f : Closure} {args : List Value} (callee : Value.Held roots w.scopes (.callable (.closure f)))
    (held : ∀ v ∈ args, v.Held roots w.scopes) (params : Symbol.selfName ∉ f.params)
    (rest : f.rest.name? ≠ some Symbol.selfName) (entered : w.enter f args = (scope, w₁)) :
    w₁.Situates roots keeps (.callable (.closure f)) scope f.body := by
  obtain ⟨enters, genuine⟩ := writes.enters sound callee held entered
  have opened : w.openChild f.env (Table.ofEntries (f.arguments args)) = (scope, w₁) := entered
  have others : ∀ entry ∈ LambdaList.entries ⟨f.params, f.rest⟩ args,
      entry.1 ≠ Symbol.selfName := by
    intro entry member same
    rcases LambdaList.entries_names member with positional | behind
    · exact params (same ▸ positional)
    · exact rest (same ▸ behind)
  refine ⟨enters.sound, genuine, enters.held ?_, get?_opened opened ?_⟩
  · cases callee with
    | closure _ body _ => exact body
  · rw [Closure.arguments_eq]
    exact lookup_reverse_cons others

/-- The name of the running closure means the innermost function that the user has written. Wherever
the evaluation of an expression comes to an expression in it, through conditions, sequences, binding
forms, connectives and operands of calls at any depth, the name resolves to what it resolves to
outside, as an operand and as an operator. That place is really evaluated: if it fails, so does the
whole. In the body of a function it is the function that has been invoked, unless a parameter has the
name. -/
theorem Sound.self_innermost (sound : host.Sound) (writes : host.Writes roots False keeps)
    (start : w.Sound roots keeps) (genuine : env.Genuine roots w.scopes)
    (held : e.Held roots w.scopes) (bound : w.scopes.get? env Symbol.selfName = some own)
    (cap : BacktraceCap) :
    (∀ env' e' w₁, host.Comes env e w (.resolves env' e') w₁ →
      (∀ r w', host.Resolves env' Library.self w₁ r w' ↔ r = .ok (.value own) ∧ w' = w₁) ∧
      w₁.scopes.operator env' Library.self = w.scopes.operator env Library.self ∧
      ∀ f w', host.Resolves env' e' w₁ (.error f) w' → host.EndsWith env e cap w (.error f) w') ∧
    ∀ (f : Closure) (args : List Value) scope w₁,
      Value.Held roots w.scopes (.callable (.closure f)) → (∀ v ∈ args, v.Held roots w.scopes) →
      Symbol.selfName ∉ f.params → f.rest.name? ≠ some Symbol.selfName →
      w.enter f args = (scope, w₁) → ∀ env' e' w₂, host.Comes scope f.body w₁ (.resolves env' e') w₂ →
      w₂.scopes.get? env' Symbol.selfName = some (.callable (.closure f)) := by
  refine ⟨fun env' e' w₁ comes => ?_, fun f args scope w₁ callee all params rest entered => ?_⟩
  · have situated := comes.situated writes ⟨start, genuine, held, bound⟩
    have inside : w₁.scopes.get? env' Symbol.selfName = some own := situated.bound
    refine ⟨fun r w' => resolves_symbol (by decide) (by decide) inside, ?_, fun f w' fails => ?_⟩
    · simp only [Library.self, Scopes.operator, inside, bound]
    · exact (evaluateOnce_eq_direct sound ..).mpr (comes.fails fails)
  · intro env' e' w₂ comes
    exact (comes.situated writes (situates_body writes start callee all params rest entered)).bound

end Host

namespace Extension

/-- `(or nil (let ((a t)) recur))`, whatever the names of the forms stand for. -/
def nested : Value :=
  Library.apply (.expander .disjunction) [.nil,
    Library.apply (.expander .parallelLet) [.list [.list [.symbol "a", .truth]], Library.self]]

theorem nested_held {roots : ScopeId → Prop} {scopes : Scopes} : nested.Held roots scopes := by
  have self : Library.self.Held roots scopes := .symbol _
  exact .list (.cons (.expander (.inl trivial)) (.cons .nil (.cons (.list (.cons
    (.expander (.inl trivial)) (.cons (.list (.cons (.list (.cons (.symbol _) (.cons .truth .nil))) .nil))
      (.cons self .nil)))) .nil)))

/-- The name at the bottom of it is come to, below the scope for what stands behind the operand of `or`
and the scope of `let`. -/
theorem nested_comes (host : Host σ) {env : Environment} {own : Value} {w : World σ}
    (bound : w.scopes.get? env Symbol.selfName = some own) :
    ∃ scope w', host.Comes env nested w (.resolves scope Library.self) w' := by
  let inner := Library.apply (.expander .parallelLet)
    [.list [.list [.symbol "a", .truth]], Library.self]
  let k : Closure := ⟨w.closures, [Symbol.selfName], .ignored, inner, env⟩
  have choice : ∀ w : World σ, w.scopes.Replaces env nested (Library.choice .nil inner) :=
    fun _ => .expands rfl rfl
  have marker : host.Resolves env .nil w.identified (.ok (.value .nil)) w.identified := .atom trivial
  have operands := (Host.resolvesAll_choice inner fun {t w₁} resolves => by
      obtain ⟨-, rfl⟩ := (Host.resolves_atom (v := .nil) trivial).mp resolves
      exact bound).mpr (Or.inr ⟨_, marker, rfl⟩)
  have outer := (choice w).resolves.mpr
    (Host.resolves_applied.mpr (Or.inr ⟨_, _, operands, rfl, rfl⟩))
  obtain ⟨look, w₁, looked⟩ : ∃ look w₁, w.identified.identified.openChild env (Table.ofEntries
      [(Symbol.selfName, own), ("v", .nil), ("k", .callable (.closure k))]) = (look, w₁) :=
    ⟨_, _, rfl⟩
  obtain ⟨scope, w₂, opened⟩ : ∃ scope w₂, w₁.openChild env
      (Table.ofEntries [(Symbol.selfName, own)]) = (scope, w₂) := ⟨_, _, rfl⟩
  have found : w₂.scopes.get? scope Symbol.selfName = some own := Host.get?_opened opened rfl
  have binding : ∀ w : World σ, w.scopes.Replaces scope inner
      (Library.parallelLet [⟨.symbol "a", .truth⟩] [Library.self]) :=
    fun _ => .expands rfl rfl
  have init : host.Resolves scope .truth w₂ (.ok (.value .truth)) w₂ := .atom trivial
  have resolved : host.ResolvesAll scope [Library.self, .truth] w₂ (.ok [.value own, .value .truth])
      w₂ :=
    .cons (.cons .nil init) (.symbol (by decide) (by decide) found)
  have applied := (binding w₂).resolves.mpr
    (Host.resolves_applied.mpr (Or.inr ⟨_, _, resolved, rfl, rfl⟩))
  have values : host.EvaluatesAll [.value own, .value .truth] w₂.identified (.ok [own, .truth])
      w₂.identified :=
    .cons .value (.cons .value .nil)
  have body := @Host.Descends.body _ host scope _ Library.self
    (Library.apply Engine.callNative [Library.lambda [Library.self, .symbol "a"] [Library.self],
      Library.self, .truth]) [.symbol "a"] [.truth] [] [] ⟨[Symbol.selfName, "a"], .ignored⟩
    w₂.closures _ _ _ _ _ _ _ _ rfl values rfl .nil .resolves
  exact ⟨_, _, .descends (.descends (.descends (.descends (.begins (.evaluates outer))
    (.replacedTree (choice _))) (.others .value rfl looked opened (.evaluates applied)))
    (.replacedTree (binding _))) body⟩

end Extension

open Extension in
/-- Below a disjunction and a binding form the name still is nil at the root, as it is there, and in
the body of a function of one parameter it is the function. -/
theorem Host.self_innermost_nested :
    (Host.none Log).Sound ∧ (Host.none Log).Writes freshRoots False (fun _ _ => True) ∧
    World.Sound freshRoots (fun _ _ => True) fresh.2 ∧
    fresh.1.root.Genuine freshRoots fresh.2.scopes ∧ nested.Held freshRoots fresh.2.scopes ∧
    fresh.2.scopes.get? fresh.1.root Symbol.selfName = some .nil ∧
    (∃ env w, (Host.none Log).Comes fresh.1.root nested fresh.2 (.resolves env Library.self) w ∧
      (Host.none Log).Resolves env Library.self w (.ok (.value .nil)) w) ∧
    ∃ f : Closure, f.body = nested ∧ ∃ scope w₁ env w,
      fresh.2.enter f [.truth] = (scope, w₁) ∧
      (Host.none Log).Comes scope f.body w₁ (.resolves env Library.self) w ∧
      w.scopes.get? env Symbol.selfName = some (.callable (.closure f)) := by
  have session := fresh_sound
  have bound : fresh.2.scopes.get? fresh.1.root Symbol.selfName = some .nil := rfl
  obtain ⟨throughout, inside⟩ := Host.Sound.self_innermost none_sound none_writes session.world
    session.root nested_held bound 10
  let f : Closure := ⟨0, ["x"], .ignored, nested, fresh.1.root⟩
  have held : Value.Held freshRoots fresh.2.scopes (.callable (.closure f)) :=
    .closure rfl nested_held ⟨rfl, session.root⟩
  have argument : ∀ v ∈ [Value.truth], v.Held freshRoots fresh.2.scopes :=
    List.forall_mem_singleton.mpr .truth
  refine ⟨none_sound, none_writes, session.world, session.root, nested_held, bound, ?_, f, rfl, ?_⟩
  · obtain ⟨env, w, comes⟩ := nested_comes (Host.none Log) bound
    exact ⟨env, w, comes, ((throughout _ _ _ comes).1 _ _).mpr ⟨rfl, rfl⟩⟩
  · obtain ⟨scope, w₁, entered⟩ : ∃ scope w₁, fresh.2.enter f [.truth] = (scope, w₁) := ⟨_, _, rfl⟩
    have own := (situates_body none_writes session.world held argument (by decide) nofun entered).bound
    obtain ⟨env, w, comes⟩ := nested_comes (Host.none Log) own
    exact ⟨scope, w₁, env, w, entered, comes,
      inside f _ _ _ held argument (by decide) nofun entered _ _ _ comes⟩

namespace Extension

/-- `(list (lambda (f x) (f t)) (let ((a (spread))) e) (spread t nil))`. The first native answers with
no value, so that the call that `let` expands into takes the function in front of it for its callee. -/
def missing (e : Value) : Value :=
  Library.apply (.symbol "list") [
    Library.lambda [.symbol "f", .symbol "x"] [.list [.symbol "f", .truth]],
    Library.binding (.symbol "let")
      [("a", .list [.callable (.native (.host "spread"))])] [e],
    Library.apply (.callable (.native (.host "spread"))) [.truth, .nil]]

/-- `(let ((a t)) (bind! recur t) e)`, with a form that binds where it is compiled. -/
def rebinding (e : Value) : Value :=
  Library.binding (.symbol "let") [("a", .truth)]
    [Library.apply (.form (.host "bind!")) [Library.self, .truth], e]

end Extension

open Extension in
/-- The name is nil at the root. It is not in an expression that stands in these: with nil in its place
the results differ. -/
theorem Host.self_not_innermost_rebound :
    fresh.2.scopes.get? fresh.1.root Symbol.selfName = some .nil ∧
    (∃ w w',
      Extension.host.EndsWith fresh.1.root (missing Library.self) 10 fresh.2
        (.ok (.list [.truth, .truth, .nil])) w ∧
      Extension.host.EndsWith fresh.1.root (missing .nil) 10 fresh.2
        (.ok (.list [.nil, .truth, .nil])) w') ∧
    ∃ w w',
      Extension.host.EndsWith fresh.1.root (rebinding Library.self) 10 fresh.2 (.ok .truth) w ∧
      Extension.host.EndsWith fresh.1.root (rebinding .nil) 10 fresh.2 (.ok .nil) w' := by
  refine ⟨rfl, ⟨_, _, ⟨_, ⟨40, rfl⟩, rfl⟩, ⟨_, ⟨40, rfl⟩, rfl⟩⟩, ?_⟩
  exact ⟨_, _, ⟨_, ⟨40, rfl⟩, rfl⟩, ⟨_, ⟨40, rfl⟩, rfl⟩⟩

end CooperativeLisp

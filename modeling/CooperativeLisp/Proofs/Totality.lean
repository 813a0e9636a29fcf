import CooperativeLisp.Proofs.Correspondence
import CooperativeLisp.Proofs.Orderly
import CooperativeLisp.Proofs.Tail

/-!
Compilations and invocations over the library come to an end. Resolving an expression goes on with
smaller expressions of the source only: the bodies of functions and the branches of conditions wait,
and what the expanders put around the operands is resolved at once. An invocation in the place of
another one has fewer arguments left, counted with all that is inside of them.
-/

namespace CooperativeLisp

variable {σ : Type}

/-! ### Sizes -/

theorem Value.size_of_mem {v : Value} {vs : List Value} (member : v ∈ vs) :
    sizeOf v < sizeOf (Value.list vs) := by
  have := List.sizeOf_lt_of_mem member
  rw [Value.list.sizeOf_spec]
  omega

theorem Value.size_of_toList? {v : Value} {vs : List Value} (listed : v.toList? = some vs) :
    sizeOf vs ≤ sizeOf v := by
  cases v with
  | nil =>
    cases listed
    exact Nat.le_refl 1
  | list items =>
    cases listed
    rw [Value.list.sizeOf_spec]
    omega
  | number | symbol | truth | callable => cases listed

theorem Binding.read_size {item : Value} {b : Binding} (read : Binding.read item = .ok b) :
    sizeOf b.init ≤ sizeOf item := by
  unfold Binding.read at read
  split at read
  · cases read
    simp
  · split at read <;> cases read
    simp
  · split at read <;> cases read
    simp
    omega
  · cases read

/-- The expression of a binding is a part of what it is read from, if it is written there at all. -/
theorem Binding.init_of_read {item : Value} {b : Binding} (read : Binding.read item = .ok b) :
    b.init = .nil ∨ ∃ name, item = .list [name, b.init] := by
  unfold Binding.read at read
  split at read
  · cases read
    exact Or.inl rfl
  · split at read <;> cases read
    exact Or.inl rfl
  · split at read <;> cases read
    exact Or.inr ⟨_, rfl⟩
  · cases read

/-- The expressions in a binding list are smaller than the list. -/
theorem Host.readAll_size {v : Value} {bindings : List Binding}
    (read : Binding.readAll v = .ok bindings) {b : Binding} (member : b ∈ bindings) :
    sizeOf b.init < sizeOf v := by
  obtain ⟨items, item, listed, inList, one⟩ := exists_of_mem_readAll read member
  calc sizeOf b.init ≤ sizeOf item := Binding.read_size one
    _ < sizeOf items := List.sizeOf_lt_of_mem inList
    _ ≤ sizeOf v := Value.size_of_toList? listed

/-! ### Resolving -/

namespace Host

variable {host : Host σ} {scopes : Scopes} {env : Environment} {operator : Value}
variable {operands : List Value} {bindings : List Binding}

/-- Over these scopes, resolving the expression comes to an end and leaves them alone. -/
def Resolvable (host : Host σ) (scopes : Scopes) (env : Environment) (e : Value) : Prop :=
  ∀ w : World σ, w.scopes = scopes → ∃ r w', host.Resolves env e w r w' ∧ w'.scopes = scopes

theorem resolvesAll_total (all : ∀ e ∈ operands, host.Resolvable scopes env e) (w : World σ)
    (here : w.scopes = scopes) :
    ∃ r w', host.ResolvesAll env operands w r w' ∧ w'.scopes = scopes := by
  induction operands with
  | nil => exact ⟨_, _, .nil, here⟩
  | cons e es ih =>
    obtain ⟨r, w₁, rest, same⟩ := ih fun e member => all e (List.mem_cons_of_mem _ member)
    cases r with
    | error f => exact ⟨_, w₁, .fails rest, same⟩
    | ok ts =>
      obtain ⟨r, w', first, same⟩ := all e List.mem_cons_self w₁ same
      exact ⟨_, w', .cons rest first, same⟩

namespace Resolvable

theorem symbol (name : String) : host.Resolvable scopes env (.symbol name) := by
  intro w here
  by_cases isNil : name = Symbol.nilName
  · subst isNil
    exact ⟨_, w, .nilMarker, here⟩
  by_cases isTruth : name = Symbol.truthName
  · subst isTruth
    exact ⟨_, w, .truthMarker, here⟩
  cases found : w.scopes.get? env name with
  | none => exact ⟨_, w, .unbound isNil isTruth found, here⟩
  | some v => exact ⟨_, w, .symbol isNil isTruth found, here⟩

theorem atom {v : Value} (plain : v.IsAtom) : host.Resolvable scopes env v :=
  fun w here => ⟨_, w, .atom plain, here⟩

theorem application {c : Callable} (resolved : scopes.operator env operator = .ok c)
    (function : c.IsFunction) (all : ∀ e ∈ operands, host.Resolvable scopes env e) :
    host.Resolvable scopes env (Library.apply operator operands) := by
  intro w here
  subst here
  obtain ⟨r, w', resolves, same⟩ := resolvesAll_total all w rfl
  exact ⟨_, w', .application resolved function resolves, same⟩

theorem computed (computes : operator.IsComputed)
    (all : ∀ e ∈ operator :: operands, host.Resolvable scopes env e) :
    host.Resolvable scopes env (Library.apply operator operands) := by
  have called : host.Resolvable scopes env
      (Library.apply Engine.callNative (operator :: operands)) :=
    application (c := .native (.primitive .call)) rfl trivial all
  intro w here
  obtain ⟨r, w', resolves, same⟩ := called w here
  exact ⟨r, w', .computed computes resolves, same⟩

/-- A function is made, or its parameters are refused; its body waits. -/
theorem function (resolved : scopes.operator env operator = .ok (.form .lambda)) :
    host.Resolvable scopes env (Library.apply operator operands) := by
  intro w here
  subst here
  cases operands with
  | nil => exact ⟨_, w, .formArity resolved (Nat.not_succ_le_zero 0), rfl⟩
  | cons params body =>
    have admitted : Form.lambda.arity.Admits (params :: body).length :=
      Nat.succ_le_succ (Nat.zero_le _)
    cases made : w.makeClosure params (Engine.bodyOf body) env with
    | mk answer w' =>
      have same : w'.scopes = w.scopes := by
        cases made
        rfl
      cases answer with
      | ok c => exact ⟨_, w', .form resolved admitted (.lambda made), same⟩
      | error e => exact ⟨_, w', .form resolved admitted (.lambdaFails made), same⟩

/-- A form of the library that binds no name resolves its first operand at most. -/
theorem form {f : Form} (resolved : scopes.operator env operator = .ok (.form f))
    (core : (Callable.form f).IsCore)
    (first : ∀ e ∈ operands.head?, host.Resolvable scopes env e) :
    host.Resolvable scopes env (Library.apply operator operands) := by
  intro w here
  by_cases admitted : f.arity.Admits operands.length
  · cases f with
    | quote =>
      subst here
      obtain ⟨v, rfl⟩ := List.length_eq_one_iff.mp admitted
      exact ⟨_, w, .form resolved admitted .quote, rfl⟩
    | lambda => exact function resolved w here
    | conditional =>
      match operands, admitted with
      | c :: rest, admitted =>
        obtain ⟨r, w', resolves, same⟩ := first c rfl w here
        subst here
        match rest with
        | [t] => exact ⟨_, w', .form resolved admitted (.choice resolves), same⟩
        | [t, e] => exact ⟨_, w', .form resolved admitted (.fullChoice resolves), same⟩
        | t :: e :: e' :: es => exact ⟨_, w, .form resolved admitted .manyBranches, rfl⟩
    | sequence =>
      cases operands with
      | nil =>
        subst here
        exact ⟨_, w, .form resolved admitted .emptySequence, rfl⟩
      | cons e es =>
        obtain ⟨r, w', resolves, same⟩ := first e rfl w here
        subst here
        exact ⟨_, w', .form resolved admitted (.sequence resolves), same⟩
    | exports cap => exact core.elim
    | host name => exact core.elim
  · subst here
    exact ⟨_, w, .formArity resolved admitted, rfl⟩

/-- What an expander makes of its operands is resolved in its place. -/
theorem expansion {x : Expander} (resolved : scopes.operator env operator = .ok (.expander x))
    (core : (Callable.expander x).IsCore)
    (expanded : ∀ e, x.expand? operands = some (.ok e) → host.Resolvable scopes env e) :
    host.Resolvable scopes env (Library.apply operator operands) := by
  intro w here
  subst here
  cases admitted : x.arity.validate operands.length with
  | error e =>
    exact ⟨_, w, .expandsNot resolved (by rw [Host.expansion, admitted]), rfl⟩
  | ok _ =>
    cases replaced : x.expand? operands with
    | none =>
      obtain ⟨name, rfl⟩ := Expander.expand?_eq_none replaced
      exact core.elim
    | some replacement =>
      have expansion : host.expansion x operands env w = (replacement, w) := by
        simp only [Host.expansion, admitted, replaced]
      cases replacement with
      | error e => exact ⟨_, w, .expandsNot resolved expansion, rfl⟩
      | ok e =>
        obtain ⟨r, w', resolves, same⟩ := expanded e replaced w rfl
        exact ⟨r, w', .expands resolved expansion resolves, same⟩

/-! #### What the expanders make -/

theorem lambda (params body : List Value) :
    host.Resolvable scopes env (Library.lambda params body) :=
  function rfl

/-- A function in the place of the operator is called by the native. -/
theorem applied {params body : List Value} (all : ∀ e ∈ operands, host.Resolvable scopes env e) :
    host.Resolvable scopes env (Library.apply (Library.lambda params body) operands) := by
  refine computed ⟨_, _, rfl⟩ fun e member => ?_
  rcases List.mem_cons.mp member with rfl | member
  · exact lambda params body
  · exact all e member

theorem parallelLet {body : List Value}
    (inits : ∀ b ∈ bindings, host.Resolvable scopes env b.init) :
    host.Resolvable scopes env (Library.parallelLet bindings body) := by
  refine applied fun e member => ?_
  rcases List.mem_cons.mp member with rfl | member
  · exact symbol _
  · obtain ⟨b, inList, rfl⟩ := List.mem_map.mp member
    exact inits b inList

theorem letForm {body : List Value}
    (read : Binding.readAll (.list (bindings.map Binding.toValue)) = .ok bindings)
    (inits : ∀ b ∈ bindings, host.Resolvable scopes env b.init) :
    host.Resolvable scopes env (Library.letForm bindings body) := by
  refine expansion (x := .parallelLet) rfl trivial fun e expanded => ?_
  simp only [Expander.expand?, read, bind, Except.bind, pure, Except.pure, Option.some.injEq,
    Except.ok.injEq] at expanded
  subst expanded
  exact parallelLet inits

/-- Only the first binding is looked at, as the others stand in the body of a function. -/
theorem serialLet {body : List Value}
    (nameLike : ∀ b ∈ bindings, Binding.isNameLike b.name = true)
    (inits : ∀ b ∈ bindings, host.Resolvable scopes env b.init) :
    host.Resolvable scopes env (Library.serialLet bindings body) := by
  cases bindings with
  | nil => exact letForm rfl nofun
  | cons b more =>
    have single : ∀ body, host.Resolvable scopes env (Library.letForm [b] body) := fun body => by
      refine letForm (readAll_single (nameLike b List.mem_cons_self)) fun b' member => ?_
      rw [List.mem_singleton.mp member]
      exact inits b List.mem_cons_self
    by_cases last : more = []
    · subst last
      exact single body
    · rw [serialLet_cons last]
      exact single _

theorem conjunction (all : ∀ e ∈ operands, host.Resolvable scopes env e) :
    host.Resolvable scopes env (Library.conjunction operands) := by
  cases operands with
  | nil => exact atom trivial
  | cons e es =>
    rcases List.eq_nil_or_concat' es with rfl | ⟨before, last, rfl⟩
    · exact all e List.mem_cons_self
    · rw [conjunction_cons]
      refine form (f := .conditional) rfl trivial fun first member => ?_
      cases member
      exact all e List.mem_cons_self

theorem disjunction (all : ∀ e ∈ operands, host.Resolvable scopes env e) :
    host.Resolvable scopes env (Library.disjunction operands) := by
  cases operands with
  | nil => exact atom trivial
  | cons e es =>
    rcases List.eq_nil_or_concat' es with rfl | ⟨before, last, rfl⟩
    · exact all e List.mem_cons_self
    · rw [disjunction_cons]
      refine applied fun operand member => ?_
      simp only [List.mem_cons, List.not_mem_nil, or_false] at member
      rcases member with rfl | rfl | rfl
      · exact symbol _
      · exact all _ List.mem_cons_self
      · exact lambda _ _

/-- An expander of the library applied to operands of which all that is inside can be resolved. -/
theorem expander {x : Expander} (resolved : scopes.operator env operator = .ok (.expander x))
    (core : (Callable.expander x).IsCore)
    (all : ∀ e ∈ operands, host.Resolvable scopes env e)
    (inits : ∀ bs ∈ operands.head?, ∀ bindings, Binding.readAll bs = .ok bindings →
      ∀ b ∈ bindings, host.Resolvable scopes env b.init) :
    host.Resolvable scopes env (Library.apply operator operands) := by
  refine expansion resolved core fun e expanded => ?_
  cases x with
  | host name => exact core.elim
  | conjunction =>
    cases expanded
    exact conjunction all
  | disjunction =>
    cases expanded
    exact disjunction all
  | parallelLet =>
    cases operands with
    | nil => cases expanded
    | cons bs body =>
      cases read : Binding.readAll bs with
      | error e => simp [Expander.expand?, read, bind, Except.bind] at expanded
      | ok bindings =>
        simp only [Expander.expand?, read, bind, Except.bind, pure, Except.pure,
          Option.some.injEq, Except.ok.injEq] at expanded
        subst expanded
        exact parallelLet (inits bs rfl bindings read)
  | serialLet =>
    cases operands with
    | nil => cases expanded
    | cons bs body =>
      cases read : Binding.readAll bs with
      | error e => simp [Expander.expand?, read, bind, Except.bind] at expanded
      | ok bindings =>
        simp only [Expander.expand?, read, bind, Except.bind, pure, Except.pure,
          Option.some.injEq, Except.ok.injEq] at expanded
        subst expanded
        exact serialLet (readAll_nameLike read) (inits bs rfl bindings read)

/-- Expressions of a kind that all of their parts are of can be resolved, if no operator of this kind
stands for the form that declares names or for a form or an expander of the host. -/
theorem of_parts {P : Value → Prop} (parts : ∀ {es e}, P (.list es) → e ∈ es → P e)
    (known : ∀ {e c}, P e → scopes.operator env e = .ok c → c.IsFunction ∨ c.IsCore)
    {e : Value} (whole : P e) : host.Resolvable scopes env e := by
  induction size : sizeOf e using Nat.strongRecOn generalizing e with
  | ind n smaller =>
    subst size
    cases e with
    | symbol name => exact symbol name
    | number | nil | truth | callable => exact atom trivial
    | list es =>
      have each : ∀ e ∈ es, host.Resolvable scopes env e := fun e member =>
        smaller _ (Value.size_of_mem member) (parts whole member) rfl
      cases es with
      | nil => exact fun w here => ⟨_, w, .empty, here⟩
      | cons operator operands =>
        have operandsEach : ∀ e ∈ operands, host.Resolvable scopes env e :=
          fun e member => each e (List.mem_cons_of_mem _ member)
        by_cases computes : operator.IsComputed
        · exact computed computes each
        cases resolved : scopes.operator env operator with
        | error f =>
          intro w here
          exact ⟨_, w, .noOperator computes (here ▸ resolved), here⟩
        | ok c =>
          have kind := known (parts whole List.mem_cons_self) resolved
          cases c with
          | native | closure => exact application resolved trivial operandsEach
          | form f =>
            exact form resolved (kind.resolve_left id) fun e first =>
              operandsEach e (List.mem_of_head? first)
          | expander x =>
            refine expander resolved (kind.resolve_left id) operandsEach ?_
            intro bs first bindings read b member
            have inList := List.mem_cons_of_mem operator (List.mem_of_head? first)
            obtain ⟨items, item, listed, member', one⟩ := exists_of_mem_readAll read member
            rcases Binding.init_of_read one with none | ⟨name, rfl⟩
            · exact none ▸ atom trivial
            have here : bs = .list items := by
              cases bs with
              | list items' => exact congrArg Value.list (Option.some.inj listed)
              | nil =>
                cases listed
                cases member'
              | number | symbol | truth | callable => cases listed
            have item := parts (here ▸ parts whole inList) member'
            refine smaller _ ?_ (parts item (by simp)) rfl
            calc sizeOf b.init < sizeOf bs := readAll_size read member
              _ < sizeOf (Value.list (operator :: operands)) := Value.size_of_mem inList

end Resolvable

end Host

/-! ### Invoking -/

/-- A reply that names no callable to be invoked in the place of the native. -/
def Answering (x : Except Error Reply) : Prop :=
  ∀ c args, x ≠ .ok (.invoke c args)

open Parameter (Function Always)

variable {params : List Parameter} {args : List Value}

theorem fixed_answering {f : Function params (Except Error Reply)}
    (always : Always Answering params f) : Answering (fixed params f args) := by
  unfold fixed
  split
  · split
    · rename_i supplied
      exact always.supply supplied
    · exact nofun
  · exact nofun

theorem variadic_answering {arity : Arity} {rest : Elements}
    {f : Function params (List rest.Denote → Except Error Reply)}
    (always : Always (fun g => ∀ xs, Answering (g xs)) params f) :
    Answering (variadic arity params rest f args) := by
  unfold variadic
  split
  · exact nofun
  split
  · exact nofun
  split
  · exact nofun
  rename_i supplied
  split
  · exact nofun
  · exact always.supply supplied _

theorem replies_answering {α : Type} (x : Except Error α) (k : α → Value) :
    Answering (x >>= fun a => replyValue (k a)) := by
  cases x <;> exact nofun

/-- What `apply` invokes has the elements of the list as its arguments. -/
theorem Primitive.apply_invoke {c : Callable} {args' : List Value}
    (replied : Primitive.apply.body args = .ok (.invoke c args')) :
    ∃ function v, args = [function, v] ∧ v.toList? = some args' := by
  change fixed (m := Except Error) [.callable, .list .anything]
    (fun c vs => Except.ok (.invoke c vs)) args = _ at replied
  unfold fixed at replied
  split at replied
  · rename_i count
    match args, count with
    | [function, v], _ =>
      refine ⟨function, v, rfl, ?_⟩
      cases named : function.callable? with
      | none =>
        simp only [Parameter.supply, Parameter.convert, named] at replied
        cases replied
      | some c' =>
        cases listed : v.toList? with
        | none =>
          simp only [Parameter.supply, Parameter.convert, named, listed] at replied
          cases replied
        | some items =>
          simp only [Parameter.supply, Parameter.convert, Elements.convert, named, listed]
            at replied
          cases replied
          rfl
  · cases replied

/-- All natives but `call` and `apply` answer by themselves. -/
theorem Primitive.body_answering {p : Primitive} (notCall : p ≠ .call) (notApply : p ≠ .apply) :
    Answering (p.body args) := by
  unfold Primitive.body
  cases p with
  | call => exact absurd rfl notCall
  | apply => exact absurd rfl notApply
  | list => exact nofun
  | divide | equal => exact variadic_answering fun _ _ => replies_answering _ _
  | cons | nth => exact fixed_answering fun _ _ => replies_answering _ _
  | add | multiply | error => exact variadic_answering fun _ => nofun
  | subtract | greater | less | atLeast | atMost => exact variadic_answering fun _ _ => nofun
  | not | car | cdr | length | isNull => exact fixed_answering fun _ => nofun

/-- A callable that a native of the library names has fewer arguments, counted with all that is
inside of them: `call` drops the callable and `apply` opens a list. -/
theorem Primitive.run_invoke {p : Primitive} {c : Callable} {args' : List Value}
    (replied : p.run args = .ok (.invoke c args')) : sizeOf args' < sizeOf args := by
  have body : p.body args = .ok (.invoke c args') := by
    unfold Primitive.run at replied
    cases admitted : p.arity.validate args.length with
    | error e => simp [admitted, bind, Except.bind] at replied
    | ok _ => simpa [admitted, bind, Except.bind] using replied
  by_cases isCall : p = .call
  · subst isCall
    match args, body with
    | .callable c' :: rest, body =>
      cases body
      simp only [List.cons.sizeOf_spec]
      omega
  by_cases isApply : p = .apply
  · subst isApply
    obtain ⟨function, v, rfl, listed⟩ := apply_invoke body
    have := Value.size_of_toList? listed
    simp only [List.cons.sizeOf_spec]
    omega
  · exact absurd body (body_answering isCall isApply c args')

end CooperativeLisp

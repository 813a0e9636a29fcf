import CooperativeLisp.Proofs.Adequate
import CooperativeLisp.Proofs.Pairing

/-!
Nil and the empty list cannot be told apart. Values are synonymous if they are equal up to exchanging
the two, and scopes that stand for each other bind the same names to synonymous values. An expression
that is evaluated in scopes that stand for each other ends with synonymous values, or with failures of
the same kind, or in neither of them. The code on both sides is the same, so resolving it differs in
the values of symbols only, and natives see no difference between synonymous arguments.
-/

namespace CooperativeLisp

open List (Forall₂)

variable {σ α β α' β' : Type} {R R' : ScopeId → ScopeId → Prop}

/-- The likeness of code: equal but for the environments of closures, whose scopes stand for each
other one by one. -/
abbrev Likeness.code (R : ScopeId → ScopeId → Prop) : Likeness :=
  .renaming (fun _ => False) R fun _ _ => True

/-- Values that are equal up to exchanging nil and the empty list. Closures have the same
parameters and body, and environments whose scopes stand for each other. -/
inductive Value.Synonymous (R : ScopeId → ScopeId → Prop) : Value → Value → Prop
  | number (x : Float) : Synonymous R (.number x) (.number x)
  | symbol (name : String) : Synonymous R (.symbol name) (.symbol name)
  | truth : Synonymous R .truth .truth
  | empty {v w : Value} : v.isNil = true → w.isNil = true → Synonymous R v w
  | list {vs ws : List Value} : Forall₂ (Value.Synonymous R) vs ws →
      Synonymous R (.list vs) (.list ws)
  | callable {c d : Callable} : c.Alike (.code R) d → Synonymous R (.callable c) (.callable d)

/-- Scopes that stand for each other have been opened and bind the same names to synonymous
values. -/
structure Scopes.Linked (R : ScopeId → ScopeId → Prop) (left right : Scopes) : Prop where
  opened : ∀ {x y}, R x y → x < left.tables.size ∧ y < right.tables.size
  bound : ∀ {x y}, R x y → ∀ name,
    Option.Rel (Value.Synonymous R) (left.local? x name) (right.local? y name)

/-- Both ends are results that are related, or failures of the same kind. -/
inductive Fault.Agree (Q : α → β → Prop) : Except Fault α → Except Fault β → Prop
  | ok {a : α} {b : β} : Q a b → Agree Q (.ok a) (.ok b)
  | error {f g : Fault} : f.kind = g.kind → Agree Q (.error f) (.error g)

theorem Fault.Agree.map {Q : α → β → Prop} {S : α' → β' → Prop} {f : α → α'} {g : β → β'}
    {x : Except Fault α} {y : Except Fault β} (agree : Fault.Agree Q x y)
    (related : ∀ {a b}, Q a b → S (f a) (g b)) : Fault.Agree S (x.map f) (y.map g) := by
  cases agree with
  | ok same => exact .ok (related same)
  | error same => exact .error same

theorem Fault.Agree.of_ok {Q : α → β → Prop} {x : Except Fault α} {y : Except Fault β} {a : α}
    (agree : Fault.Agree Q x y) (ends : x = .ok a) : ∃ b, y = .ok b ∧ Q a b := by
  cases agree with
  | ok same =>
    cases ends
    exact ⟨_, rfl, same⟩
  | error same => cases ends

theorem Fault.Agree.of_error {Q : α → β → Prop} {x : Except Fault α} {y : Except Fault β}
    {f : Fault} (agree : Fault.Agree Q x y) (ends : x = .error f) :
    ∃ g, y = .error g ∧ f.kind = g.kind := by
  cases agree with
  | ok same => cases ends
  | error same =>
    cases ends
    exact ⟨_, rfl, same⟩

/-- Trees that differ in the values of symbols only. -/
inductive Resolved.Synonymous (R : ScopeId → ScopeId → Prop) : Resolved → Resolved → Prop
  | value {v w : Value} : v.Synonymous R w → Synonymous R (.value v) (.value w)
  | application {o o' : Operation} {ts us : List Resolved} {origin origin' : Value} :
      o.Alike (.code R) o' → Forall₂ (Resolved.Synonymous R) ts us →
      Synonymous R (.application o ts origin) (.application o' us origin')

/-! ### Synonymous values -/

theorem Likeness.code_le (more : ∀ x y, R x y → R' x y) : (Likeness.code R).Le (.code R') :=
  Likeness.renaming_le (more _ _) id

mutual

theorem Value.Synonymous.of_alike {v w : Value} (alike : v.Alike (.code R) w) :
    v.Synonymous R w := by
  match alike with
  | .number x => exact .number x
  | .symbol name => exact .symbol name
  | .nil => exact .empty rfl rfl
  | .truth => exact .truth
  | .list all => exact .list (of_alikeAll all)
  | .native known => exact .callable (.native known)
  | .form known => exact .callable (.form known)
  | .expander known => exact .callable (.expander known)
  | .closure same body around => exact .callable (.closure same body around)

theorem Value.Synonymous.of_alikeAll {vs ws : List Value}
    (all : Forall₂ (Value.Alike (.code R)) vs ws) : Forall₂ (Value.Synonymous R) vs ws := by
  match all with
  | .nil => exact .nil
  | .cons first rest => exact .cons (of_alike first) (of_alikeAll rest)

end

mutual

theorem Value.Synonymous.mono (more : ∀ x y, R x y → R' x y) {v w : Value}
    (synonymous : v.Synonymous R w) : v.Synonymous R' w := by
  match synonymous with
  | .number x => exact .number x
  | .symbol name => exact .symbol name
  | .truth => exact .truth
  | .empty left right => exact .empty left right
  | .list all => exact .list (monoAll more all)
  | .callable alike => exact .callable (Callable.Alike.mono (Likeness.code_le more) alike)

theorem Value.Synonymous.monoAll (more : ∀ x y, R x y → R' x y) {vs ws : List Value}
    (all : Forall₂ (Value.Synonymous R) vs ws) : Forall₂ (Value.Synonymous R') vs ws := by
  match all with
  | .nil => exact .nil
  | .cons first rest => exact .cons (first.mono more) (monoAll more rest)

end

theorem Value.Synonymous.monoOption (more : ∀ x y, R x y → R' x y) {x y : Option Value}
    (related : Option.Rel (Value.Synonymous R) x y) : Option.Rel (Value.Synonymous R') x y := by
  cases related with
  | none => exact .none
  | some same => exact .some (same.mono more)

mutual

theorem Resolved.Synonymous.mono (more : ∀ x y, R x y → R' x y) {t u : Resolved}
    (synonymous : t.Synonymous R u) : t.Synonymous R' u := by
  match synonymous with
  | .value same => exact .value (same.mono more)
  | .application operation all =>
    exact .application (operation.mono (Likeness.code_le more)) (monoAll more all)

theorem Resolved.Synonymous.monoAll (more : ∀ x y, R x y → R' x y) {ts us : List Resolved}
    (all : Forall₂ (Resolved.Synonymous R) ts us) : Forall₂ (Resolved.Synonymous R') ts us := by
  match all with
  | .nil => exact .nil
  | .cons first rest => exact .cons (first.mono more) (monoAll more rest)

end

namespace Value.Synonymous

variable {v w : Value} {vs ws : List Value}

theorem isNil (synonymous : v.Synonymous R w) : v.isNil = w.isNil := by
  cases synonymous with
  | empty left right => rw [left, right]
  | list all => cases all <;> rfl
  | _ => rfl

theorem number? (synonymous : v.Synonymous R w) : v.number? = w.number? := by
  have none : ∀ {v : Value}, v.isNil = true → v.number? = none := fun {v} empty => by
    cases v <;> first | rfl | cases empty
  cases synonymous with
  | empty left right => rw [none left, none right]
  | _ => rfl

theorem callable? (synonymous : v.Synonymous R w) :
    Option.Rel (Callable.Alike (.code R)) v.callable? w.callable? := by
  have none : ∀ {v : Value}, v.isNil = true → v.callable? = none := fun {v} empty => by
    cases v <;> first | rfl | cases empty
  cases synonymous with
  | empty left right =>
    rw [none left, none right]
    exact .none
  | callable same => exact .some same
  | _ => exact .none

theorem toList? (synonymous : v.Synonymous R w) :
    Option.Rel (Forall₂ (Value.Synonymous R)) v.toList? w.toList? := by
  cases synonymous with
  | empty left right =>
    rw [Value.isNil_iff_toList?.mp left, Value.isNil_iff_toList?.mp right]
    exact .some .nil
  | list all => exact .some all
  | _ => exact .none

/-- Being synonymous, with failures of the same kind. -/
def kinship (R : ScopeId → ScopeId → Prop) : Kinship :=
  ⟨Value.Synonymous R, Callable.Alike (.code R), fun f g => f.kind = g.kind⟩

/-- Natives cannot tell nil and the empty list apart. -/
theorem observed (R : ScopeId → ScopeId → Prop) : (kinship R).Observed where
  isNil synonymous := Synonymous.isNil synonymous
  number? synonymous := Synonymous.number? synonymous
  callable? synonymous := Synonymous.callable? synonymous
  toList? synonymous := Synonymous.toList? synonymous
  number := .number
  nil := .empty rfl rfl
  truth := .truth
  list := .list
  same _ := rfl
  notANumber _ := rfl
  expectedNumber _ := rfl
  expectedList _ := rfl
  incomparable _ _ := rfl
  consOnto _ := rfl
  illegalCall _ := rfl
  signalled _ := rfl

end Value.Synonymous

mutual

theorem Value.Alike.code_symm {v w : Value} (alike : v.Alike (.code R) w) :
    w.Alike (.code (flip R)) v := by
  match alike with
  | .number x => exact .number x
  | .symbol name => exact .symbol name
  | .nil => exact .nil
  | .truth => exact .truth
  | .list all => exact .list (code_symmAll all)
  | .native known => exact .native known
  | .form known => exact .form known
  | .expander known => exact .expander known
  | .closure _ body around => exact .closure trivial (code_symm body) around.flip

theorem Value.Alike.code_symmAll {vs ws : List Value} (all : Forall₂ (Value.Alike (.code R)) vs ws) :
    Forall₂ (Value.Alike (.code (flip R))) ws vs := by
  match all with
  | .nil => exact .nil
  | .cons first rest => exact .cons (code_symm first) (code_symmAll rest)

end

mutual

theorem Value.Synonymous.symm {v w : Value} (synonymous : v.Synonymous R w) :
    w.Synonymous (flip R) v := by
  match synonymous with
  | .number x => exact .number x
  | .symbol name => exact .symbol name
  | .truth => exact .truth
  | .empty left right => exact .empty right left
  | .list all => exact .list (symmAll all)
  | .callable alike => exact .callable (Value.Alike.code_symm alike)

theorem Value.Synonymous.symmAll {vs ws : List Value} (all : Forall₂ (Value.Synonymous R) vs ws) :
    Forall₂ (Value.Synonymous (flip R)) ws vs := by
  match all with
  | .nil => exact .nil
  | .cons first rest => exact .cons first.symm (symmAll rest)

end

/-! ### Scopes that stand for each other -/

/-- A symbol in the place of an operator stands for the callable that it is bound to. -/
theorem Scopes.operator_symbol {scopes : Scopes} {env : Environment} {name : String} :
    scopes.operator env (.symbol name) = match scopes.get? env name with
      | some v => match v.callable? with
        | some c => .ok c
        | none => .error (.illegalCall name)
      | none => .error (.unbound name) := by
  unfold Scopes.operator
  dsimp only
  cases scopes.get? env name with
  | none => rfl
  | some v => cases v <;> rfl

namespace Scopes.Linked

variable {left right : Scopes} {env env' : Environment}

theorem symm (linked : left.Linked R right) : right.Linked (flip R) left where
  opened same := (linked.opened same).symm
  bound {x y} same name := by
    have bound := linked.bound same name
    revert bound
    generalize left.local? y name = v
    generalize right.local? x name = w
    intro bound
    cases bound with
    | none => exact .none
    | some same => exact .some same.symm

theorem find? (linked : left.Linked R right) (name : String) {chain chain' : List ScopeId}
    (around : Forall₂ R chain chain') :
    Option.Rel (Value.Synonymous R) (left.find? name chain) (right.find? name chain') := by
  induction around with
  | nil => exact .none
  | @cons x y _ _ same _ ih =>
    have here := linked.bound same name
    unfold Scopes.find?
    revert here
    generalize left.local? x name = v
    generalize right.local? y name = w
    intro here
    cases here with
    | none => exact ih
    | some synonymous => exact .some synonymous

theorem get?_some (linked : left.Linked R right) (around : Forall₂ R env.chain env'.chain)
    {name : String} {v : Value} (found : left.get? env name = some v) :
    ∃ w, right.get? env' name = some w ∧ v.Synonymous R w := by
  have bound := linked.find? name around
  unfold Scopes.get? at found ⊢
  rw [found] at bound
  generalize right.find? name env'.chain = x at bound
  cases bound with
  | some same => exact ⟨_, rfl, same⟩

theorem get?_none (linked : left.Linked R right) (around : Forall₂ R env.chain env'.chain)
    {name : String} (free : left.get? env name = none) : right.get? env' name = none := by
  have bound := linked.find? name around
  unfold Scopes.get? at free ⊢
  rw [free] at bound
  generalize right.find? name env'.chain = x at bound
  cases bound
  rfl

/-- An operator stands for callables that are alike, or for none on either side. -/
theorem operator {operator operator' : Value} (linked : left.Linked R right)
    (around : Forall₂ R env.chain env'.chain) (same : operator.Alike (.code R) operator') :
    Fault.Agree (Callable.Alike (.code R)) (left.operator env operator)
      (right.operator env' operator') := by
  cases same with
  | symbol name =>
    have found : Option.Rel (Value.Synonymous R) (left.get? env name) (right.get? env' name) :=
      linked.find? name around
    rw [operator_symbol, operator_symbol]
    revert found
    generalize left.get? env name = x
    generalize right.get? env' name = y
    intro found
    cases found with
    | none => exact .error rfl
    | @some v w synonymous =>
      have callables := synonymous.callable?
      dsimp only
      revert callables
      generalize v.callable? = x
      generalize w.callable? = y
      intro callables
      cases callables with
      | none => exact .error rfl
      | some same => exact .ok same
  | native known => exact .ok (.native known)
  | form known => exact .ok (.form known)
  | expander known => exact .ok (.expander known)
  | closure same body around => exact .ok (.closure same body around)
  | _ => exact .error rfl

/-- The scopes of two invocations with synonymous arguments stand for each other. -/
theorem enter (linked : left.Linked R right) (around : Forall₂ R env.chain env'.chain)
    {table table' : Table} {scope : Environment} {scopes : Scopes}
    (entries : ∀ name : String, Option.Rel (Value.Synonymous R) table[name]? table'[name]?)
    (opened : left.openChild env table = (scope, scopes)) :
    ∃ R' : ScopeId → ScopeId → Prop, (∀ x y, R x y → R' x y) ∧
      scopes.Linked R' (right.openChild env' table').2 ∧
      Forall₂ R' scope.chain (right.openChild env' table').1.chain := by
  let R' := fun x y => R x y ∨ x = left.tables.size ∧ y = right.tables.size
  have more : ∀ x y, R x y → R' x y := fun _ _ => Or.inl
  obtain rfl : scopes = (left.openChild env table).2 := (congrArg Prod.snd opened).symm
  obtain rfl : scope = (left.openChild env table).1 := (congrArg Prod.fst opened).symm
  refine ⟨R', more, ⟨fun {x y} same => ?_, fun {x y} same name => ?_⟩,
    .cons (Or.inr ⟨rfl, rfl⟩) (around.imp more)⟩
  · rw [Scopes.tables_openChild, Scopes.tables_openChild]
    rcases same with old | ⟨rfl, rfl⟩
    · exact ⟨Nat.lt_succ_of_lt (linked.opened old).1, Nat.lt_succ_of_lt (linked.opened old).2⟩
    · exact ⟨Nat.lt_succ_self _, Nat.lt_succ_self _⟩
  · rcases same with old | ⟨rfl, rfl⟩
    · rw [Scopes.local?_openChild_other (Nat.ne_of_lt (linked.opened old).1),
        Scopes.local?_openChild_other (Nat.ne_of_lt (linked.opened old).2)]
      exact Value.Synonymous.monoOption more (linked.bound old name)
    · rw [Scopes.local?_openChild_self, Scopes.local?_openChild_self]
      exact Value.Synonymous.monoOption more (entries name)

end Scopes.Linked

/-! ### Code that is the same -/

section Code

variable {v w : Value} {vs ws : List Value}

theorem Value.Alike.isAtom {ρ : Likeness} (alike : v.Alike ρ w) (atom : v.IsAtom) : w.IsAtom := by
  cases alike <;> first | exact atom.elim | exact trivial

theorem Value.Alike.isComputed {ρ : Likeness} (alike : v.Alike ρ w) :
    v.IsComputed ↔ w.IsComputed := by
  cases alike with
  | list all =>
    cases all with
    | nil => exact Iff.rfl
    | cons _ _ => exact ⟨fun _ => ⟨_, _, rfl⟩, fun _ => ⟨_, _, rfl⟩⟩
  | closure => exact ⟨(nomatch ·), (nomatch ·)⟩
  | _ => exact Iff.rfl

theorem Value.Alike.of_apply {ρ : Likeness} (alike : (Library.apply v vs).Alike ρ w) :
    ∃ operator operands, w = Library.apply operator operands ∧ v.Alike ρ operator ∧
      Forall₂ (Value.Alike ρ) vs operands := by
  cases alike with
  | list all =>
    cases all with
    | cons first rest => exact ⟨_, _, rfl, first, rest⟩

theorem Callable.Alike.of_closure {ρ : Likeness} {c : Closure} {d : Callable}
    (alike : Callable.Alike ρ (.closure c) d) : ∃ d', d = .closure d' ∧ c.params = d'.params ∧
      c.rest = d'.rest ∧ c.body.Alike ρ d'.body ∧ ρ.environment c.env d'.env := by
  cases alike with
  | closure _ body around => exact ⟨_, rfl, rfl, rfl, body, around⟩

/-- What an expander of the library makes of the same operands is the same, in whatever world. -/
theorem Host.expansion_code {host : Host σ} {x : Expander} (core : (Callable.expander x).IsCore)
    (operands : Forall₂ (Value.Alike (.code R)) vs ws) {env : Environment} {w₁ w₂ : World σ}
    {r : Except Error Value} (expansion : host.expansion x vs env w₁ = (r, w₂)) :
    w₂ = w₁ ∧ ∃ r', (∀ env w, host.expansion x ws env w = (r', w)) ∧
      Matched (.code R) (Value.Alike (.code R)) r r' := by
  unfold Host.expansion at expansion ⊢
  rw [operands.length_eq] at expansion
  cases admitted : x.arity.validate ws.length with
  | error e =>
    rw [admitted] at expansion
    cases expansion
    exact ⟨rfl, _, fun _ _ => rfl, .error (Arity.validate_refusal admitted)⟩
  | ok _ =>
    rw [admitted] at expansion
    dsimp only at expansion ⊢
    have replaced := x.expand?_alike operands
    cases left : x.expand? vs with
    | none =>
      obtain ⟨name, rfl⟩ := Expander.expand?_eq_none left
      exact core.elim
    | some replacement =>
      rw [left] at expansion replaced
      generalize x.expand? ws = y at replaced
      cases expansion
      cases replaced with
      | some same => exact ⟨rfl, _, fun _ _ => rfl, same⟩

/-- A native of the library replies to synonymous arguments alike, in whatever world. -/
theorem Host.nativeReply_synonymous {host : Host σ} {n : Native}
    (core : (Callable.native n).IsCore) (args : Forall₂ (Value.Synonymous R) vs ws)
    {w₁ w₂ : World σ} {r : Except Error Reply} (replied : host.nativeReply n vs w₁ = (r, w₂)) :
    w₂ = w₁ ∧ ∃ r', (∀ w, host.nativeReply n ws w = (r', w)) ∧
      (Value.Synonymous.kinship R).Ends (Value.Synonymous.kinship R).Replies r r' := by
  cases n with
  | primitive p =>
    cases replied
    exact ⟨rfl, _, fun _ => rfl, (Value.Synonymous.observed R).run p args⟩
  | host name => exact core.elim

/-- The trees of sequences of the same code. -/
theorem Resolved.Synonymous.sequence {env env' : Environment}
    (rest : Forall₂ (Value.Alike (.code R)) vs ws) (around : Forall₂ R env.chain env'.chain)
    {t u : Resolved} (same : t.Synonymous R u) :
    (Resolved.sequence env v vs t).Synonymous R (Resolved.sequence env' w ws u) := by
  unfold Resolved.sequence
  refine List.rel_foldl (P := Resolved.Synonymous R) ?_ same rest
  exact fun _ _ same _ _ next => .application (.sequel around next) (.cons same .nil)

/-- A condition holds of synonymous values alike. -/
theorem Value.Synonymous.isTrue_head? (args : Forall₂ (Value.Synonymous R) vs ws) :
    vs.head?.any Value.isTrue = ws.head?.any Value.isTrue := by
  cases args with
  | nil => rfl
  | cons first _ => exact congrArg (!·) first.isNil

end Code

namespace Host

variable {host : Host σ}

/-- The evaluation that `P` tells of has an end as well, which agrees with this one. -/
def Follows (R : ScopeId → ScopeId → Prop) (Q : (ScopeId → ScopeId → Prop) → α → α → Prop)
    (P : Except Fault α → World σ → Prop) (r : Except Fault α) (w : World σ) : Prop :=
  ∃ R' r' w', (∀ x y, R x y → R' x y) ∧ w.scopes.Linked R' w'.scopes ∧ P r' w' ∧
    Fault.Agree (Q R') r r'

section
variable {R R₁ : ScopeId → ScopeId → Prop} {Q : (ScopeId → ScopeId → Prop) → α → α → Prop}
variable {S : (ScopeId → ScopeId → Prop) → β → β → Prop} {P P' : Except Fault α → World σ → Prop}
variable {T : Except Fault β → World σ → Prop} {r r' : Except Fault α} {t : Except Fault β}
variable {w w' w₁ : World σ}

theorem Follows.here (linked : w.scopes.Linked R w'.scopes) (holds : P r' w')
    (agree : Fault.Agree (Q R) r r') : Follows R Q P r w :=
  ⟨R, r', w', fun _ _ => id, linked, holds, agree⟩

theorem Follows.mono (follows : Follows R₁ Q P r w) (more : ∀ x y, R x y → R₁ x y) :
    Follows R Q P r w := by
  obtain ⟨R₂, r', w', more', linked, holds, agree⟩ := follows
  exact ⟨R₂, r', w', fun x y => more' x y ∘ more x y, linked, holds, agree⟩

theorem Follows.imp (follows : Follows R Q P r w) (step : ∀ {r w}, P r w → P' r w) :
    Follows R Q P' r w := by
  obtain ⟨R', r', w', more, linked, holds, agree⟩ := follows
  exact ⟨R', r', w', more, linked, step holds, agree⟩

/-- What is made of the result of another evaluation. -/
theorem Follows.map {f g : α → β} (follows : Follows R Q P r w)
    (step : ∀ {r w}, P r w → T (r.map g) w)
    (related : ∀ {R₁}, (∀ x y, R x y → R₁ x y) → ∀ {a b}, Q R₁ a b → S R₁ (f a) (g b)) :
    Follows R S T (r.map f) w := by
  obtain ⟨R', r', w', more, linked, holds, agree⟩ := follows
  exact ⟨R', _, w', more, linked, step holds, agree.map (related more)⟩

/-- An evaluation that goes on with the result of another one. -/
theorem Follows.bind {a : α} (follows : Follows R Q P (.ok a) w)
    (rest : ∀ {R₁ b w'}, (∀ x y, R x y → R₁ x y) → w.scopes.Linked R₁ w'.scopes →
      P (.ok b) w' → Q R₁ a b → Follows R₁ S T t w₁) : Follows R S T t w₁ := by
  obtain ⟨R', _, w', more, linked, holds, agree⟩ := follows
  cases agree with
  | ok related => exact (rest more linked holds related).mono more

/-- An evaluation that ends with the failure of another one. -/
theorem Follows.fails {e : Fault} (follows : Follows R Q P (.error e) w)
    (step : ∀ {e w}, P (.error e) w → T (.error e) w) : Follows R S T (.error e) w := by
  obtain ⟨R', _, w', more, linked, holds, agree⟩ := follows
  cases agree with
  | error kind => exact ⟨R', _, w', more, linked, step holds, .error kind⟩

end

mutual

theorem Resolves.follows {R : ScopeId → ScopeId → Prop} {env env' : Environment} {e e' : Value}
    {w w₁ w' : World σ} {r : Except Fault Resolved} (resolves : host.Resolves env e w r w₁)
    (linked : w.scopes.Linked R w'.scopes) (around : Forall₂ R env.chain env'.chain)
    (same : e.Alike (.code R) e') :
    Follows R Resolved.Synonymous (host.Resolves env' e' w') r w₁ := by
  match resolves with
  | .nilMarker =>
    cases same with
    | symbol _ => exact .here linked .nilMarker (.ok (.value (.empty rfl rfl)))
  | .truthMarker =>
    cases same with
    | symbol _ => exact .here linked .truthMarker (.ok (.value .truth))
  | .symbol notNil notTruth found =>
    cases same with
    | symbol _ =>
      obtain ⟨v, there, same⟩ := linked.get?_some around found
      exact .here linked (.symbol notNil notTruth there) (.ok (.value same))
  | .unbound notNil notTruth found =>
    cases same with
    | symbol _ =>
      exact .here linked (.unbound notNil notTruth (linked.get?_none around found)) (.error rfl)
  | .empty =>
    cases same with
    | list all =>
      cases all
      exact .here linked .empty (.ok (.value (.empty rfl rfl)))
  | .atom plain =>
    exact .here linked (.atom (same.isAtom plain)) (.ok (.value (.of_alike same)))
  | .computed computes rest =>
    obtain ⟨operator, operands, rfl, first, others⟩ := same.of_apply
    exact (rest.follows linked around
      (Library.apply_alike (.native (.inl trivial)) (.cons first others))).imp
        (.computed (first.isComputed.mp computes))
  | .noOperator notComputed failed =>
    obtain ⟨operator, operands, rfl, first, others⟩ := same.of_apply
    obtain ⟨g, failed', kind⟩ := (linked.operator around first).of_error failed
    exact .here linked (.noOperator (mt first.isComputed.mpr notComputed) failed') (.error kind)
  | .expands resolved expansion rest =>
    obtain ⟨operator, operands, rfl, first, others⟩ := same.of_apply
    obtain ⟨d, resolved', callee⟩ := (linked.operator around first).of_ok resolved
    cases callee with
    | expander known =>
      obtain ⟨alone, _, expansion', replaced⟩ :=
        expansion_code (known.resolve_right id) others expansion
      cases replaced with
      | ok replaced =>
        exact (rest.follows (alone ▸ linked) around replaced).imp
          (.expands resolved' (expansion' _ _))
  | .expandsNot resolved expansion =>
    obtain ⟨operator, operands, rfl, first, others⟩ := same.of_apply
    obtain ⟨d, resolved', callee⟩ := (linked.operator around first).of_ok resolved
    cases callee with
    | expander known =>
      obtain ⟨alone, _, expansion', replaced⟩ :=
        expansion_code (known.resolve_right id) others expansion
      cases replaced with
      | error replaced =>
        exact .here (alone ▸ linked) (.expandsNot resolved' (expansion' _ _))
          (.error replaced.fault.kind)
  | .form resolved admitted applies =>
    obtain ⟨operator, operands, rfl, first, others⟩ := same.of_apply
    obtain ⟨d, resolved', callee⟩ := (linked.operator around first).of_ok resolved
    cases callee with
    | form known =>
      exact (applies.follows linked (known.resolve_right id) others around).imp
        (.form resolved' (others.length_eq ▸ admitted))
  | .formArity resolved refused =>
    obtain ⟨operator, operands, rfl, first, others⟩ := same.of_apply
    obtain ⟨d, resolved', callee⟩ := (linked.operator around first).of_ok resolved
    cases callee with
    | form known =>
      exact .here linked (.formArity resolved' (others.length_eq ▸ refused)) (.error rfl)
  | .application resolved function all =>
    obtain ⟨operator, operands, rfl, first, others⟩ := same.of_apply
    obtain ⟨d, resolved', callee⟩ := (linked.operator around first).of_ok resolved
    have function' : d.IsFunction := by
      cases callee <;> exact function
    exact (all.follows linked around others).map (.application resolved' function')
      fun more _ _ all => .application (.callable (callee.mono (Likeness.code_le more))) all

theorem ResolvesAll.follows {R : ScopeId → ScopeId → Prop} {env env' : Environment}
    {es es' : List Value} {w w₁ w' : World σ} {r : Except Fault (List Resolved)}
    (resolves : host.ResolvesAll env es w r w₁) (linked : w.scopes.Linked R w'.scopes)
    (around : Forall₂ R env.chain env'.chain) (same : Forall₂ (Value.Alike (.code R)) es es') :
    Follows R (fun R => Forall₂ (Resolved.Synonymous R)) (host.ResolvesAll env' es' w') r w₁ := by
  match resolves with
  | .nil =>
    cases same
    exact .here linked .nil (.ok .nil)
  | .cons all one =>
    cases same with
    | cons first others =>
      refine (all.follows linked around others).bind fun more after resolves related => ?_
      exact (one.follows after (around.imp more) (first.mono (Likeness.code_le more))).map
        (.cons resolves) fun more' _ _ same => .cons same (Resolved.Synonymous.monoAll more' related)
  | .fails all =>
    cases same with
    | cons first others =>
      exact (all.follows linked around others).fails .fails

theorem Applies.follows {R : ScopeId → ScopeId → Prop} {f : Form} {env env' : Environment}
    {es es' : List Value} {w w₁ w' : World σ} {r : Except Fault Resolved}
    (applies : host.Applies f es env w r w₁) (linked : w.scopes.Linked R w'.scopes)
    (core : (Callable.form f).IsCore) (same : Forall₂ (Value.Alike (.code R)) es es')
    (around : Forall₂ R env.chain env'.chain) :
    Follows R Resolved.Synonymous (host.Applies f es' env' w') r w₁ := by
  match applies with
  | .quote =>
    cases same with
    | cons first rest =>
      cases rest
      exact .here linked .quote (.ok (.value (.of_alike first)))
  | .lambda made =>
    cases same with
    | cons params body =>
      obtain ⟨left, kept⟩ := Prod.mk.inj made
      have closures := Closure.make_alike (i := w.closures) (j := w'.closures) trivial params
        (Engine.bodyOf_alike body) around
      rw [left] at closures
      generalize right : Closure.make w'.closures _ _ env' = made' at closures
      cases closures with
      | ok same =>
        exact ⟨R, _, { w' with closures := w'.closures + 1 }, fun _ _ => id, kept ▸ linked,
          .lambda (congrArg (·, _) right), .ok (.value (.callable same))⟩
  | .lambdaFails made =>
    cases same with
    | cons params body =>
      obtain ⟨left, kept⟩ := Prod.mk.inj made
      have closures := Closure.make_alike (i := w.closures) (j := w'.closures) trivial params
        (Engine.bodyOf_alike body) around
      rw [left] at closures
      generalize right : Closure.make w'.closures _ _ env' = made' at closures
      cases closures with
      | error same =>
        exact ⟨R, _, { w' with closures := w'.closures + 1 }, fun _ _ => id, kept ▸ linked,
          .lambdaFails (congrArg (·, _) right), .error same.fault.kind⟩
  | .choice resolves =>
    cases same with
    | cons c rest =>
      cases rest with
      | cons t rest =>
        cases rest
        exact (resolves.follows linked around c).map .choice fun more _ _ same => .application
          (.branch (around.imp more) (t.mono (Likeness.code_le more)) .nil) (.cons same .nil)
  | .fullChoice resolves =>
    cases same with
    | cons c rest =>
      cases rest with
      | cons t rest =>
        cases rest with
        | cons e rest =>
          cases rest
          refine (resolves.follows linked around c).map .fullChoice fun more _ _ same => ?_
          have le := Likeness.code_le more
          exact .application (.branch (around.imp more) (t.mono le) (e.mono le)) (.cons same .nil)
  | .manyBranches =>
    cases same with
    | cons c rest =>
      cases rest with
      | cons t rest =>
        cases rest with
        | cons e rest =>
          cases rest with
          | cons e' rest => exact .here linked .manyBranches (.error rfl)
  | .emptySequence =>
    cases same
    exact .here linked .emptySequence (.ok (.value (.empty rfl rfl)))
  | .sequence resolves =>
    cases same with
    | cons first rest =>
      exact (resolves.follows linked around first).map .sequence fun more =>
        .sequence (Value.Alike.monoAll (Likeness.code_le more) rest) (around.imp more)
  | .noBindings _ | .exports _ _ => exact core.elim
  | .hostFails _ | .hostValue _ | .hostStream _ _ | .hostCompile _ _ => exact core.elim

theorem Evaluates.follows {R : ScopeId → ScopeId → Prop} {t u : Resolved} {w w₁ w' : World σ}
    {r : Except Fault Value} (evaluates : host.Evaluates t w r w₁)
    (linked : w.scopes.Linked R w'.scopes) (same : t.Synonymous R u) :
    Follows R Value.Synonymous (host.Evaluates u w') r w₁ := by
  match evaluates with
  | .value =>
    cases same with
    | value same => exact .here linked .value (.ok same)
  | .application all operates =>
    cases same with
    | application operation operands =>
      refine (all.follows linked operands).bind fun more after evaluated args => ?_
      exact (operates.follows after (operation.mono (Likeness.code_le more)) args).imp
        (.application evaluated)
  | .operandFails all =>
    cases same with
    | application operation operands =>
      exact (all.follows linked operands).fails .operandFails

theorem EvaluatesAll.follows {R : ScopeId → ScopeId → Prop} {ts us : List Resolved}
    {w w₁ w' : World σ} {r : Except Fault (List Value)} (evaluates : host.EvaluatesAll ts w r w₁)
    (linked : w.scopes.Linked R w'.scopes) (same : Forall₂ (Resolved.Synonymous R) ts us) :
    Follows R (fun R => Forall₂ (Value.Synonymous R)) (host.EvaluatesAll us w') r w₁ := by
  match evaluates with
  | .nil =>
    cases same
    exact .here linked .nil (.ok .nil)
  | .cons one all =>
    cases same with
    | cons first others =>
      refine (one.follows linked first).bind fun more after evaluated related => ?_
      exact (all.follows after (Resolved.Synonymous.monoAll more others)).map (.cons evaluated)
        fun more' _ _ same => .cons (related.mono more') same
  | .fails one =>
    cases same with
    | cons first others =>
      exact (one.follows linked first).fails .fails

theorem Operates.follows {R : ScopeId → ScopeId → Prop} {o o' : Operation}
    {args args' : List Value} {w w₁ w' : World σ} {r : Except Fault Value}
    (operates : host.Operates o args w r w₁) (linked : w.scopes.Linked R w'.scopes)
    (same : o.Alike (.code R) o') (all : Forall₂ (Value.Synonymous R) args args') :
    Follows R Value.Synonymous (host.Operates o' args' w') r w₁ := by
  have condition := Value.Synonymous.isTrue_head? all
  match operates with
  | .callable calls =>
    cases same with
    | callable callee =>
      exact (calls.follows linked callee all).imp .callable
  | .consequent holds direct =>
    cases same with
    | branch around consequent _ =>
      exact (direct.follows linked around consequent).imp (.consequent (condition ▸ holds))
  | .alternative fails direct =>
    cases same with
    | branch around _ alternative =>
      exact (direct.follows linked around alternative).imp (.alternative (condition ▸ fails))
  | .sequel direct =>
    cases same with
    | sequel around next =>
      exact (direct.follows linked around next).imp .sequel

theorem Calls.follows {R : ScopeId → ScopeId → Prop} {c d : Callable} {args args' : List Value}
    {w w₁ w' : World σ} {r : Except Fault Value} (calls : host.Calls c args w r w₁)
    (linked : w.scopes.Linked R w'.scopes) (callee : c.Alike (.code R) d)
    (all : Forall₂ (Value.Synonymous R) args args') :
    Follows R Value.Synonymous (host.Calls d args' w') r w₁ := by
  match calls with
  | .closure opened direct =>
    obtain ⟨d, rfl, params, rest, body, around⟩ := callee.of_closure
    obtain ⟨R₁, more, after, inner⟩ := linked.enter around (Table.ofEntries_kin
      (Closure.arguments_kin (.callable callee) params rest (.empty rfl rfl) .list all)) opened
    have entered : Scopes.Linked R₁ _ (w'.enter d args').2.scopes := after
    have evaluated := direct.follows entered inner (body.mono (Likeness.code_le more))
    exact (evaluated.imp (.closure rfl)).mono more
  | .form =>
    cases callee with
    | form _ => exact .here linked .form (.error rfl)
  | .expander =>
    cases callee with
    | expander _ => exact .here linked .expander (.error rfl)
  | .nativeFails replied =>
    cases callee with
    | native known =>
      obtain ⟨alone, _, replied', ends⟩ :=
        nativeReply_synonymous (known.resolve_right id) all replied
      cases ends with
      | fails kind =>
        exact .here (alone ▸ linked) (.nativeFails (replied' w')) (.error kind)
  | .value replied =>
    cases callee with
    | native known =>
      obtain ⟨alone, _, replied', ends⟩ :=
        nativeReply_synonymous (known.resolve_right id) all replied
      cases ends with
      | ok reply =>
        cases reply with
        | value same => exact .here (alone ▸ linked) (.value (replied' w')) (.ok same)
  | .streamFails replied _ | .stream replied _ _ | .compile replied _ =>
    cases callee with
    | native known =>
      obtain ⟨_, _, _, ends⟩ := nativeReply_synonymous (known.resolve_right id) all replied
      cases ends with
      | ok reply => cases reply
  | .invoke replied calls =>
    cases callee with
    | native known =>
      obtain ⟨alone, _, replied', ends⟩ :=
        nativeReply_synonymous (known.resolve_right id) all replied
      cases ends with
      | ok reply =>
        cases reply with
        | invoke inner args =>
          exact (calls.follows (alone ▸ linked) inner args).imp (.invoke (replied' w'))

theorem Direct.follows {R : ScopeId → ScopeId → Prop} {env env' : Environment} {e e' : Value}
    {w w₁ w' : World σ} {r : Except Fault Value} (direct : host.Direct env e w r w₁)
    (linked : w.scopes.Linked R w'.scopes) (around : Forall₂ R env.chain env'.chain)
    (same : e.Alike (.code R) e') :
    Follows R Value.Synonymous (host.Direct env' e' w') r w₁ := by
  match direct with
  | .fails resolves =>
    exact (resolves.follows linked around same).fails .fails
  | .evaluates resolves evaluates =>
    refine (resolves.follows linked around same).bind fun _ after resolves same => ?_
    exact (evaluates.follows after same).imp (.evaluates resolves)

end

/-- Evaluations from worlds whose scopes stand for each other agree: if the one ends, so does the
other, with a synonymous value or with a failure of the same kind. -/
theorem Sound.follows (sound : host.Sound) {env env' : Environment} {e e' : Value}
    {w w₁ w' : World σ} {cap : BacktraceCap} {r : Except Error Value}
    (linked : w.scopes.Linked R w'.scopes) (around : Forall₂ R env.chain env'.chain)
    (same : e.Alike (.code R) e') (answers : host.Answers (·.evaluateOnce env e cap) w r w₁) :
    ∃ R' r' w₂, (∀ x y, R x y → R' x y) ∧ w₁.scopes.Linked R' w₂.scopes ∧
      host.Answers (·.evaluateOnce env' e' cap) w' r' w₂ ∧
      Fault.Agree (Value.Synonymous R') (r.mapError Error.fault) (r'.mapError Error.fault) := by
  obtain ⟨R', _, w₂, more, after, direct, agree⟩ :=
    (sound.direct answers).follows linked around same
  obtain ⟨r', answers', rfl⟩ := direct.answers cap
  exact ⟨R', r', w₂, more, after, answers', agree⟩

/-- Nil and the empty list cannot be told apart by a program. Code that is the same, evaluated in
environments whose scopes bind the same names to values that are equal up to exchanging the two,
ends with values that are so equal, or with failures of the same kind, or in neither of them. -/
theorem Sound.nil_synonymous_empty (sound : host.Sound) {env env' : Environment} {e e' : Value}
    {w w' : World σ} (linked : w.scopes.Linked R w'.scopes)
    (around : Forall₂ R env.chain env'.chain) (same : e.Alike (.code R) e') (cap : BacktraceCap) :
    (∃ R' v v' w₁ w₁', host.Answers (·.evaluateOnce env e cap) w (.ok v) w₁ ∧
      host.Answers (·.evaluateOnce env' e' cap) w' (.ok v') w₁' ∧ (∀ x y, R x y → R' x y) ∧
      w₁.scopes.Linked R' w₁'.scopes ∧ v.Synonymous R' v') ∨
    (∃ R' f f' w₁ w₁', host.Answers (·.evaluateOnce env e cap) w (.error f) w₁ ∧
      host.Answers (·.evaluateOnce env' e' cap) w' (.error f') w₁' ∧ (∀ x y, R x y → R' x y) ∧
      w₁.scopes.Linked R' w₁'.scopes ∧ f.fault.kind = f'.fault.kind) ∨
    ((∀ r w₁, ¬ host.Answers (·.evaluateOnce env e cap) w r w₁) ∧
      ∀ r w₁, ¬ host.Answers (·.evaluateOnce env' e' cap) w' r w₁) := by
  by_cases ends : ∃ r w₁, host.Answers (·.evaluateOnce env e cap) w r w₁
  · obtain ⟨r, w₁, answers⟩ := ends
    obtain ⟨R', r', w₂, more, after, answers', agree⟩ := sound.follows linked around same answers
    cases r with
    | ok v =>
      cases r' with
      | ok v' =>
        cases agree with
        | ok same => exact Or.inl ⟨R', v, v', w₁, w₂, answers, answers', more, after, same⟩
      | error f' => cases agree
    | error f =>
      cases r' with
      | ok v' => cases agree
      | error f' =>
        cases agree with
        | error kind =>
          exact Or.inr (Or.inl ⟨R', f, f', w₁, w₂, answers, answers', more, after, kind⟩)
  · refine Or.inr (Or.inr ⟨fun r w₁ answers => ends ⟨r, w₁, answers⟩, fun r w₁ answers => ends ?_⟩)
    obtain ⟨_, r', w₂, -, -, answers', -⟩ :=
      sound.follows linked.symm around.flip same.code_symm answers
    exact ⟨r', w₂, answers'⟩

end Host

/-! ### A name for nothing -/

namespace Extension

/-- The library, with a name for a value. -/
def naming (v : Value) : World Unit :=
  (World.openRoot ⟨{}, 0, ()⟩ (Library.table.insert "x" v)).2

/-- The two roots stand for each other. -/
theorem naming_linked : (naming .nil).scopes.Linked (fun x y => x = 0 ∧ y = 0)
    (naming (.list [])).scopes := by
  refine ⟨?_, ?_⟩
  · rintro x y ⟨rfl, rfl⟩
    exact ⟨Nat.zero_lt_one, Nat.zero_lt_one⟩
  · rintro x y ⟨rfl, rfl⟩ name
    have left : (naming .nil).scopes.local? 0 name = (Library.table.insert "x" .nil)[name]? :=
      @Scopes.local?_openRoot_self {} _ name
    have right : (naming (.list [])).scopes.local? 0 name =
        (Library.table.insert "x" (.list []))[name]? :=
      @Scopes.local?_openRoot_self {} _ name
    rw [left, right, Std.TreeMap.getElem?_insert, Std.TreeMap.getElem?_insert]
    split
    · exact .some (.empty rfl rfl)
    · cases found : Library.table[name]? with
      | none => exact .none
      | some v => exact .some (.of_alike (Library.table_alike found))

/-- `(if x 1 (list x))` -/
def asking : Value :=
  Library.apply (.form .conditional)
    [.symbol "x", .number 1, Library.apply (.primitive .list) [.symbol "x"]]

theorem asking_same {R : ScopeId → ScopeId → Prop} : asking.Alike (.code R) asking :=
  Library.apply_alike (.form (.inl trivial)) (.cons (.symbol _) (.cons (.number _)
    (.cons (Library.apply_alike (.native (.inl trivial)) (.cons (.symbol _) .nil)) .nil)))

end Extension

open Extension in
/-- The name is bound to nil on the one side and to the empty list on the other. -/
theorem Host.nil_synonymous_empty_asking : ∃ R v' w₁ w₁',
    listing.Answers (·.evaluateOnce ⟨0, []⟩ asking 10) (naming .nil) (.ok (.list [.nil])) w₁ ∧
    listing.Answers (·.evaluateOnce ⟨0, []⟩ asking 10) (naming (.list [])) (.ok v') w₁' ∧
    Value.Synonymous R (.list [.nil]) v' := by
  have left : listing.Answers (·.evaluateOnce ⟨0, []⟩ asking 10) (naming .nil)
      (.ok (.list [.nil])) (naming .nil) := ⟨9, rfl⟩
  have steady : Engine.Steady (·.evaluateOnce ⟨0, []⟩ asking 10 : Engine Unit → _) :=
    fun below => below.evaluateOnce _ _ _
  have around : Forall₂ (fun x y => x = 0 ∧ y = 0) (Environment.chain ⟨0, []⟩)
    (Environment.chain ⟨0, []⟩) := .cons ⟨rfl, rfl⟩ .nil
  obtain ⟨R, v, v', w₁, w₁', ends, ends', -, -, same⟩ | ⟨_, f, _, _, _, fails, -⟩ | ⟨never, -⟩ :=
    listing_sound.nil_synonymous_empty naming_linked around asking_same 10
  · obtain ⟨equal, rfl⟩ := ends.unique steady left
    cases equal
    exact ⟨R, v', _, w₁', ends, ends', same⟩
  · cases (fails.unique steady left).1
  · exact absurd left (never _ _)

end CooperativeLisp

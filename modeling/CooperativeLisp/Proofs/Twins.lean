import CooperativeLisp.Proofs.AlikeLibrary
import CooperativeLisp.Proofs.Splice
import CooperativeLisp.Proofs.Tail

/-!
Two interpreters that differ in what no program sees: the second root binds some names that the
programs do not mention, and backtraces are bounded differently. Values of the two are twins if they
are equal but for the bounds that declaring forms carry. Main statements: natives reply to twins with
twins, and an expansion mentions none of those names if what it replaces does not.
-/

namespace CooperativeLisp

open List (Forall₂)

variable {σ : Type}

/-- In what two interpreters differ: what only the second root binds, and which bounds on backtraces
stand for each other. So many entries of two backtraces are compared, and no more than bounds that
stand for each other both keep or both drop. -/
structure Twinning where
  root : ScopeId
  extras : Table
  caps : BacktraceCap → BacktraceCap → Prop
  entries : Nat
  caps_refl : ∀ cap, caps cap cap
  caps_agree : ∀ {cap cap'}, caps cap cap' → min (max cap 1) entries = min (max cap' 1) entries
  self_free : Symbol.selfName ∉ extras

namespace Library

/-- The body of the function that a disjunction applies, which names two of its parameters. -/
def test : Value :=
  apply (.form .conditional) [.symbol "v", .symbol "v", .list [.symbol "k", self]]

/-- The function that a disjunction applies to an operand and to the rest. -/
def chooser : Value :=
  lambda [self, .symbol "v", .symbol "k"] [test]

theorem choice_eq (operand rest : Value) :
    choice operand rest = apply chooser [self, operand, lambda [self] [rest]] := rfl

end Library

/-- The scopes of a chain end at this root and have all been opened after it. -/
def Environment.Within (root : ScopeId) (env : Environment) : Prop :=
  ∃ inner, env.chain = inner ++ [root] ∧ ∀ x ∈ inner, root < x

namespace Twinning

variable (τ : Twinning)

/-- An expression that mentions none of the extra names, except for the one expression of the library
that binds what it mentions. It holds no closure and no callable of a host. -/
inductive Plain : Value → Prop
  | number (x : Float) : Plain (.number x)
  | symbol {name : String} : name ∉ τ.extras → Plain (.symbol name)
  | nil : Plain .nil
  | truth : Plain .truth
  | callable {c : Callable} : c.IsCore → Plain (.callable c)
  | exports (cap : BacktraceCap) : Plain (.form (.exports cap))
  | list {es : List Value} : (∀ e ∈ es, Plain e) → Plain (.list es)
  | chooser : Plain Library.chooser

/-- A closure whose body is plain, or the test of a disjunction with its parameters. -/
structure Owns (c : Closure) : Prop where
  within : c.env.Within τ.root
  body : τ.Plain c.body ∨ c.params = [Symbol.selfName, "v", "k"] ∧ c.body = Library.test

end Twinning

/-- Callables that are equal but for the bound that a declaring form carries. -/
inductive Callable.Twin (τ : Twinning) : Callable → Callable → Prop
  | core {c : Callable} : c.IsCore → Twin τ c c
  | exports {cap cap' : BacktraceCap} : τ.caps cap cap' →
      Twin τ (.form (.exports cap)) (.form (.exports cap'))
  | closure {c : Closure} : τ.Owns c → Twin τ (.closure c) (.closure c)

inductive Value.Twin (τ : Twinning) : Value → Value → Prop
  | number (x : Float) : Twin τ (.number x) (.number x)
  | symbol (name : String) : Twin τ (.symbol name) (.symbol name)
  | nil : Twin τ .nil .nil
  | truth : Twin τ .truth .truth
  | list {vs ws : List Value} : Forall₂ (Value.Twin τ) vs ws → Twin τ (.list vs) (.list ws)
  | callable {c d : Callable} : c.Twin τ d → Twin τ (.callable c) (.callable d)

/-- Causes of the same kind with the same message, which are equal if the bounds are. -/
structure Fault.Twin (τ : Twinning) (f g : Fault) : Prop where
  alike : f.Alike g
  same : (∀ {cap cap'}, τ.caps cap cap' → cap = cap') → f = g

/-- Failures whose causes are twins and whose backtraces agree as far as they are compared. -/
structure Error.Twin (τ : Twinning) (e e' : Error) : Prop where
  fault : e.fault.Twin τ e'.fault
  backtrace : e.backtrace.take τ.entries = e'.backtrace.take τ.entries

variable {τ : Twinning} {v w : Value} {vs ws : List Value}

/-! ### Values -/

theorem Callable.Twin.display {c d : Callable} (twin : c.Twin τ d) : c.display = d.display := by
  cases twin <;> rfl

theorem Callable.Twin.eq (exact : ∀ {cap cap'}, τ.caps cap cap' → cap = cap') {c d : Callable}
    (twin : c.Twin τ d) : c = d := by
  cases twin with
  | core _ => rfl
  | exports same => rw [exact same]
  | closure _ => rfl

namespace Value.Twin

mutual

/-- Where bounds stand for themselves alone, twins are equal. -/
theorem eq (exact : ∀ {cap cap'}, τ.caps cap cap' → cap = cap') {v w : Value} (twin : v.Twin τ w) :
    v = w := by
  match twin with
  | .number x => rfl
  | .symbol name => rfl
  | .nil => rfl
  | .truth => rfl
  | .list all => rw [eqAll exact all]
  | .callable same => rw [same.eq exact]

theorem eqAll (exact : ∀ {cap cap'}, τ.caps cap cap' → cap = cap') {vs ws : List Value}
    (all : Forall₂ (Value.Twin τ) vs ws) : vs = ws := by
  match all with
  | .nil => rfl
  | .cons first rest => rw [eq exact first, eqAll exact rest]

end

mutual

theorem appendTo {v w : Value} (twin : v.Twin τ w) (shown : String) :
    v.appendTo shown = w.appendTo shown := by
  match twin with
  | .number x => rfl
  | .symbol name => rfl
  | .nil => rfl
  | .truth => rfl
  | .list .nil => rfl
  | .list (.cons first rest) => simp only [Value.appendTo, first.appendTo, appendAll rest]
  | .callable same => rw [Value.appendTo, Value.appendTo, same.display]

theorem appendAll {vs ws : List Value} (all : Forall₂ (Value.Twin τ) vs ws) (shown : String) :
    Value.appendAll shown vs = Value.appendAll shown ws := by
  match all with
  | .nil => rfl
  | .cons first rest => simp only [Value.appendAll, first.appendTo, appendAll rest]

end

theorem display (twin : v.Twin τ w) : v.display = w.display :=
  twin.appendTo ""

theorem displayAll (all : Forall₂ (Value.Twin τ) vs ws) :
    Value.displayAll vs = Value.displayAll ws := by
  have shown : vs.map Value.display = ws.map Value.display := by
    induction all with
    | nil => rfl
    | cons first _ ih => rw [List.map_cons, List.map_cons, first.display, ih]
  rw [Value.displayAll, Value.displayAll, shown]

theorem kind (twin : v.Twin τ w) : v.kind = w.kind := by
  cases twin <;> rfl

theorem isNil (twin : v.Twin τ w) : v.isNil = w.isNil := by
  cases twin with
  | list all => exact isEmpty_eq_of_forall₂ all
  | _ => rfl

theorem isTrue (twin : v.Twin τ w) : v.isTrue = w.isTrue := by
  rw [Value.isTrue, Value.isTrue, twin.isNil]

theorem toList? (twin : v.Twin τ w) :
    Option.Rel (Forall₂ (Value.Twin τ)) v.toList? w.toList? := by
  cases twin with
  | nil => exact .some .nil
  | list all => exact .some all
  | _ => exact .none

end Value.Twin

/-! ### Failures -/

namespace Fault.Twin

theorem refl (f : Fault) : f.Twin τ f := ⟨.refl f, fun _ => rfl⟩

/-- Causes that are made alike of twins are twins if their messages are equal. -/
theorem of_values (cause : Value → Fault) (twin : v.Twin τ w)
    (kind : (cause v).kind = (cause w).kind) (message : (cause v).message = (cause w).message) :
    (cause v).Twin τ (cause w) :=
  ⟨⟨kind, message⟩, fun exact => by rw [twin.eq exact]⟩

end Fault.Twin

/-- Two lists that agree so far still do so behind fronts that agree so far. -/
theorem take_append_agree {α : Type} {n : Nat} {xs xs' ys ys' : List α}
    (front : xs.take n = xs'.take n) (back : ys.take n = ys'.take n) :
    (xs ++ ys).take n = (xs' ++ ys').take n := by
  rw [← take_take_append, front, take_take_append]
  exact take_append_congr xs' back

/-- Two lists that agree so far still do so if both are cut where that does not matter. -/
theorem take_take_agree {α : Type} {n i j : Nat} {xs ys : List α} (same : xs.take n = ys.take n)
    (bounds : min i n = min j n) : (xs.take i).take n = (ys.take j).take n := by
  have left : (xs.take i).take n = (xs.take n).take (min i n) := by
    rw [List.take_take, List.take_take]
    congr 1
    omega
  have right : (ys.take j).take n = (ys.take n).take (min j n) := by
    rw [List.take_take, List.take_take]
    congr 1
    omega
  rw [left, right, same, bounds]

namespace Error.Twin

variable {e e' : Error}

theorem ofFault {f g : Fault} (twin : f.Twin τ g) : (Error.ofFault f).Twin τ (Error.ofFault g) :=
  ⟨twin, rfl⟩

theorem withOrigin (twin : e.Twin τ e') (origin : Value) :
    (e.withOrigin origin).Twin τ (e'.withOrigin origin) :=
  ⟨twin.fault, take_append_agree twin.backtrace rfl⟩

theorem withTrace (twin : e.Twin τ e') {cap cap' : BacktraceCap}
    (trace : vs.take τ.entries = ws.take τ.entries)
    (bounds : min cap τ.entries = min cap' τ.entries) :
    (e.withTrace vs cap).Twin τ (e'.withTrace ws cap') :=
  ⟨twin.fault, take_take_agree (take_append_agree twin.backtrace trace) bounds⟩

end Error.Twin

/-! ### Natives -/

namespace Twinning

/-- Being twins, with causes of failure that are twins. -/
def kinship (τ : Twinning) : Kinship :=
  ⟨Value.Twin τ, Callable.Twin τ, Fault.Twin τ⟩

theorem observed (τ : Twinning) : τ.kinship.Observed where
  isNil twin := Value.Twin.isNil twin
  number? twin := by cases twin <;> rfl
  callable? twin := by
    cases twin with
    | callable same => exact .some same
    | _ => exact .none
  toList? twin := Value.Twin.toList? twin
  number := .number
  nil := .nil
  truth := .truth
  list := .list
  same := .refl
  notANumber {v w} twin := .of_values (fun v => .type (.notANumber v)) twin rfl (by
    dsimp only [Fault.message, TypeFault.message]
    rw [Value.Twin.display twin, Value.Twin.kind twin])
  expectedNumber twin := .of_values (fun v => .type (.expectedNumber v)) twin rfl (by
    dsimp only [Fault.message, TypeFault.message]
    rw [Value.Twin.display twin, Value.Twin.kind twin])
  expectedList twin := Value.Twin.kind twin ▸ .refl _
  incomparable first second := by
    rw [Value.Twin.kind first, Value.Twin.kind second]
    exact .refl _
  consOnto twin := Value.Twin.kind twin ▸ .refl _
  illegalCall twin := Value.Twin.display twin ▸ .refl _
  signalled all := Value.Twin.displayAll all ▸ .refl _

/-! ### Expansions -/

namespace Plain

variable {e : Value} {es : List Value}

theorem items (plain : τ.Plain (.list es)) :
    (∀ e ∈ es, τ.Plain e) ∨ Value.list es = Library.chooser := by
  generalize same : Value.list es = e at plain
  cases plain with
  | list all =>
    cases same
    exact Or.inl all
  | chooser => exact Or.inr rfl
  | _ => cases same

/-- A plain expression is its own twin as a value. -/
theorem twin (plain : τ.Plain e) : e.Twin τ e := by
  induction plain with
  | number x => exact .number x
  | symbol _ => exact .symbol _
  | nil => exact .nil
  | truth => exact .truth
  | callable core => exact .callable (.core core)
  | exports cap => exact .callable (.exports (τ.caps_refl cap))
  | list _ ih => exact .list (List.forall₂_same.mpr ih)
  | chooser =>
    have names : ∀ name, Value.Twin τ (.symbol name) (.symbol name) := .symbol
    have call : Value.Twin τ (.list [.symbol "k", Library.self]) (.list [.symbol "k", Library.self]) :=
      .list (.cons (names _) (.cons (names _) .nil))
    have test : Value.Twin τ Library.test Library.test :=
      .list (.cons (.callable (.core trivial))
        (.cons (names _) (.cons (names _) (.cons call .nil))))
    have params : Value.Twin τ (.list [Library.self, .symbol "v", .symbol "k"])
        (.list [Library.self, .symbol "v", .symbol "k"]) :=
      .list (.cons (names _) (.cons (names _) (.cons (names _) .nil)))
    exact .list (.cons (.callable (.core trivial)) (.cons params (.cons test .nil)))

theorem self : τ.Plain Library.self := .symbol τ.self_free

theorem apply {operator : Value} {operands : List Value} (first : τ.Plain operator)
    (rest : ∀ e ∈ operands, τ.Plain e) : τ.Plain (Library.apply operator operands) :=
  .list (List.forall_mem_cons.mpr ⟨first, rest⟩)

theorem pair {e e' : Value} (first : τ.Plain e) (second : τ.Plain e') :
    ∀ u ∈ [e, e'], τ.Plain u :=
  List.forall_mem_cons.mpr ⟨first, List.forall_mem_singleton.mpr second⟩

theorem lambda {params body : List Value} (names : ∀ e ∈ params, τ.Plain e)
    (inside : ∀ e ∈ body, τ.Plain e) : τ.Plain (Library.lambda params body) :=
  apply (.callable trivial) (List.forall_mem_cons.mpr ⟨.list names, inside⟩)

theorem bodyOf {body : List Value} (inside : ∀ e ∈ body, τ.Plain e) :
    τ.Plain (Engine.bodyOf body) := by
  match body with
  | [] => exact .nil
  | [single] => exact inside single List.mem_cons_self
  | _ :: _ :: _ => exact apply (.callable trivial) inside

end Plain

/-- A binding of a plain name to a plain expression. -/
structure Binds (τ : Twinning) (b : Binding) : Prop where
  name : τ.Plain b.name
  init : τ.Plain b.init

theorem Binds.toValue {b : Binding} (binds : τ.Binds b) : τ.Plain b.toValue :=
  .list (Plain.pair binds.name binds.init)

theorem Binds.of_read {item : Value} {b : Binding} (plain : τ.Plain item)
    (read : Binding.read item = .ok b) : τ.Binds b := by
  unfold Binding.read at read
  dsimp only at read
  split at read
  · cases read
    exact ⟨plain, .nil⟩
  · split at read
    · cases read
      rcases plain.items with all | chooser
      · exact ⟨all _ List.mem_cons_self, .nil⟩
      · cases chooser
    · cases read
  · split at read
    · cases read
      rcases plain.items with all | chooser
      · exact ⟨all _ List.mem_cons_self, all _ (.tail _ List.mem_cons_self)⟩
      · cases chooser
    · cases read
  · cases read

theorem binds_of_readAll {v : Value} {bindings : List Binding} (plain : τ.Plain v)
    (read : Binding.readAll v = .ok bindings) : ∀ b ∈ bindings, τ.Binds b := by
  intro b member
  obtain ⟨items, item, listed, inList, one⟩ := Host.exists_of_mem_readAll read member
  refine .of_read ?_ one
  cases plain with
  | nil =>
    cases listed
    cases inList
  | list all =>
    cases listed
    exact all item inList
  | chooser =>
    -- the chooser is no binding list, as its first item is the form itself
    cases read
  | _ => cases listed

section Expansions

variable {bindings : List Binding} {body operands : List Value}

theorem plain_parallelLet (binds : ∀ b ∈ bindings, τ.Binds b) (inside : ∀ e ∈ body, τ.Plain e) :
    τ.Plain (Library.parallelLet bindings body) := by
  have names : ∀ e ∈ bindings.map (·.name), τ.Plain e :=
    List.forall_mem_map.mpr fun b member => (binds b member).name
  have inits : ∀ e ∈ bindings.map (·.init), τ.Plain e :=
    List.forall_mem_map.mpr fun b member => (binds b member).init
  exact .apply (.lambda (List.forall_mem_cons.mpr ⟨.self, names⟩) inside)
    (List.forall_mem_cons.mpr ⟨.self, inits⟩)

theorem plain_letForm (binds : ∀ b ∈ bindings, τ.Binds b) (inside : ∀ e ∈ body, τ.Plain e) :
    τ.Plain (Library.letForm bindings body) := by
  have items : ∀ e ∈ bindings.map Binding.toValue, τ.Plain e :=
    List.forall_mem_map.mpr fun b member => (binds b member).toValue
  exact .apply (.callable trivial) (List.forall_mem_cons.mpr ⟨.list items, inside⟩)

/-- What is folded over plain operands is plain if every step keeps it so. -/
theorem plain_foldl {α : Type} {f : Value → α → Value} {P : α → Prop} {as : List α} {e : Value}
    (step : ∀ {e a}, τ.Plain e → P a → τ.Plain (f e a)) (all : ∀ a ∈ as, P a) (plain : τ.Plain e) :
    τ.Plain (as.foldl f e) := by
  induction as generalizing e with
  | nil => exact plain
  | cons a as ih =>
    obtain ⟨here, more⟩ := List.forall_mem_cons.mp all
    exact ih more (step plain here)

theorem plain_serialLet (binds : ∀ b ∈ bindings, τ.Binds b) (inside : ∀ e ∈ body, τ.Plain e) :
    τ.Plain (Library.serialLet bindings body) := by
  unfold Library.serialLet
  split
  · exact plain_letForm nofun inside
  · rename_i last before backwards
    have all : ∀ b ∈ last :: before, τ.Binds b :=
      fun b member => binds b (List.mem_reverse.mp (backwards ▸ member))
    obtain ⟨here, more⟩ := List.forall_mem_cons.mp all
    refine plain_foldl (fun inner here => ?_) more
      (plain_letForm (List.forall_mem_singleton.mpr here) inside)
    exact plain_letForm (List.forall_mem_singleton.mpr here) (List.forall_mem_singleton.mpr inner)

theorem plain_conjunction (plain : ∀ e ∈ operands, τ.Plain e) :
    τ.Plain (Library.conjunction operands) := by
  unfold Library.conjunction
  split
  · exact .truth
  · rename_i last before backwards
    have all : ∀ e ∈ last :: before, τ.Plain e :=
      fun e member => plain e (List.mem_reverse.mp (backwards ▸ member))
    obtain ⟨here, more⟩ := List.forall_mem_cons.mp all
    refine plain_foldl (fun rest operand => ?_) more here
    exact .apply (.callable trivial) (List.forall_mem_cons.mpr ⟨operand, .pair rest .nil⟩)

/-- The one expansion that mentions names of its own binds them itself. -/
theorem plain_choice {operand rest : Value} (first : τ.Plain operand) (others : τ.Plain rest) :
    τ.Plain (Library.choice operand rest) := by
  have selfOnly : ∀ e ∈ [Library.self], τ.Plain e := List.forall_mem_singleton.mpr .self
  have postponed : τ.Plain (Library.lambda [Library.self] [rest]) :=
    .lambda selfOnly (List.forall_mem_singleton.mpr others)
  rw [Library.choice_eq]
  exact .apply .chooser (List.forall_mem_cons.mpr ⟨.self, .pair first postponed⟩)

theorem plain_disjunction (plain : ∀ e ∈ operands, τ.Plain e) :
    τ.Plain (Library.disjunction operands) := by
  unfold Library.disjunction
  split
  · exact .nil
  · rename_i last before backwards
    have all : ∀ e ∈ last :: before, τ.Plain e :=
      fun e member => plain e (List.mem_reverse.mp (backwards ▸ member))
    obtain ⟨here, more⟩ := List.forall_mem_cons.mp all
    exact plain_foldl (fun rest operand => plain_choice operand rest) more here

/-- What the library puts in the place of plain operands is plain. -/
theorem plain_expand {x : Expander} {e : Value} (plain : ∀ e ∈ operands, τ.Plain e)
    (replaced : x.expand? operands = some (.ok e)) : τ.Plain e := by
  have bindingForm : ∀ {make : List Binding → List Value → Value} {list : Value}
      {body : List Value}, operands = list :: body →
      (do return make (← Binding.readAll list) body : Except Error Value) = .ok e →
      ∃ bindings, (∀ b ∈ bindings, τ.Binds b) ∧ (∀ e ∈ body, τ.Plain e) ∧
        e = make bindings body := by
    rintro make list body rfl made
    obtain ⟨listed, inside⟩ := List.forall_mem_cons.mp plain
    cases read : Binding.readAll list with
    | error error => simp [read, bind, Except.bind] at made
    | ok bindings =>
      rw [read] at made
      cases made
      exact ⟨bindings, binds_of_readAll listed read, inside, rfl⟩
  cases x with
  | parallelLet =>
    cases operands with
    | nil => cases replaced
    | cons list body =>
      obtain ⟨bindings, binds, inside, rfl⟩ := bindingForm rfl (Option.some.inj replaced)
      exact plain_parallelLet binds inside
  | serialLet =>
    cases operands with
    | nil => cases replaced
    | cons list body =>
      obtain ⟨bindings, binds, inside, rfl⟩ := bindingForm rfl (Option.some.inj replaced)
      exact plain_serialLet binds inside
  | conjunction =>
    cases replaced
    exact plain_conjunction plain
  | disjunction =>
    cases replaced
    exact plain_disjunction plain
  | host name => cases replaced

end Expansions

end Twinning

end CooperativeLisp

import CooperativeLisp.Library.Natives

/-!
Natives with a signature. What the checks find about a list of arguments is stated apart from the
checks: the declared arity, the number of arguments, the parameters from the left and then the
arguments behind them, each only when everything before it is in order. Main statement: a native
that is made from a function answers with the first thing found to be wrong, without running the
function, and otherwise with what the function makes of the converted arguments.
-/

namespace CooperativeLisp

/-! ### One argument -/

/-- What is found in the elements of a list: the elements as a function receives them, or the first
element that is wrong. -/
inductive Elements.Finds : (e : Elements) → List Value → Except Fault (List e.Denote) → Prop where
  | anything {vs : List Value} : Finds .anything vs (.ok vs)
  | numbers {xs : List Float} : Finds .numbers (xs.map .number) (.ok xs)
  | notNumber {xs : List Float} {v : Value} {behind : List Value} (wrong : ∀ x, v ≠ .number x) :
      Finds .numbers (xs.map .number ++ v :: behind) (.error (.type (.expectedNumber v)))

/-- What is found in an argument: the argument as a function receives it, or what is wrong. -/
inductive Parameter.Finds : (p : Parameter) → Value → Except Fault p.Denote → Prop where
  | anything {v : Value} : Finds .anything v (.ok v)
  | number {x : Float} : Finds .number (.number x) (.ok x)
  | notNumber {v : Value} (wrong : ∀ x, v ≠ .number x) :
      Finds .number v (.error (.type (.notANumber v)))
  | callable {c : Callable} : Finds .callable (.callable c) (.ok c)
  | notCallable {v : Value} (wrong : ∀ c, v ≠ .callable c) :
      Finds .callable v (.error (.illegalCall v.display))
  | list {e : Elements} {v : Value} {items : List Value} {found : Except Fault (List e.Denote)}
      (listed : v.toList? = some items) (elements : e.Finds items found) :
      Finds (.list e) v found
  | notList {e : Elements} {v : Value} (wrong : v.toList? = none) :
      Finds (.list e) v (.error (.type (.expectedList v.kind)))

theorem Error.ofFault_injective : Function.Injective Error.ofFault := fun _ _ same =>
  congrArg Error.fault same

theorem Except.mapError_ofFault_injective {α : Type} :
    Function.Injective (Except.mapError Error.ofFault : Except Fault α → Except Error α) := by
  intro a b same
  cases a with
  | ok x =>
    cases b with
    | ok y => exact congrArg Except.ok (Except.ok.inj same)
    | error fault => exact nomatch same
  | error fault =>
    cases b with
    | ok y => exact nomatch same
    | error fault' => exact congrArg Except.error (Error.ofFault_injective (Except.error.inj same))

namespace Elements

theorem Finds.convert_eq {e : Elements} {vs : List Value} {found : Except Fault (List e.Denote)}
    (finds : e.Finds vs found) : e.convert vs = found.mapError .ofFault := by
  have allNumbers (xs : List Float) : (xs.map Value.number).find? (·.number?.isNone) = none := by
    simp [List.find?_eq_none, Value.number?]
  cases finds with
  | anything => rfl
  | @numbers xs =>
    have exact : (xs.map Value.number).map asNumber = xs := by
      simp [asNumber, Value.number?, Function.comp_def]
    show numbersOf _ = _
    rw [numbersOf, allNumbers, exact]
    rfl
  | @notNumber xs v behind wrong =>
    have first : (xs.map Value.number ++ v :: behind).find? (·.number?.isNone) = some v := by
      have none : v.number?.isNone = true := by
        cases v <;> simp_all [Value.number?]
      rw [List.find?_append, allNumbers, Option.none_or, List.find?_cons, none]
    show numbersOf _ = _
    rw [numbersOf, first]
    rfl

theorem Finds.unique {e : Elements} {vs : List Value} {found found' : Except Fault (List e.Denote)}
    (finds : e.Finds vs found) (again : e.Finds vs found') : found = found' :=
  Except.mapError_ofFault_injective (finds.convert_eq.symm.trans again.convert_eq)

theorem exists_finds (e : Elements) (vs : List Value) : ∃ found, e.Finds vs found := by
  cases e with
  | anything => exact ⟨_, .anything⟩
  | numbers =>
    induction vs with
    | nil =>
      have none : Finds .numbers ([].map .number) (.ok []) := .numbers
      exact ⟨_, none⟩
    | cons v vs ih =>
      by_cases numeric : ∃ x, v = .number x
      · obtain ⟨x, rfl⟩ := numeric
        obtain ⟨found, finds⟩ := ih
        cases finds with
        | @numbers xs =>
          have all : Finds .numbers ((x :: xs).map .number) (.ok (x :: xs)) := .numbers
          exact ⟨_, all⟩
        | @notNumber xs w behind wrong =>
          have later : Finds .numbers ((x :: xs).map .number ++ w :: behind) _ := .notNumber wrong
          exact ⟨_, later⟩
      · have first : Finds .numbers ([].map .number ++ v :: vs) _ :=
          .notNumber (not_exists.mp numeric)
        exact ⟨_, first⟩

end Elements

namespace Parameter

theorem Finds.convert_eq {p : Parameter} {v : Value} {found : Except Fault p.Denote}
    (finds : p.Finds v found) : p.convert v = found.mapError .ofFault := by
  cases finds with
  | anything | number | callable => rfl
  | notNumber wrong =>
    have none : v.number? = none := by cases v <;> simp_all [Value.number?]
    simp only [convert, none]
    rfl
  | notCallable wrong =>
    have none : v.callable? = none := by cases v <;> simp_all [Value.callable?]
    simp only [convert, none]
    rfl
  | list listed elements => simp only [convert, listed, elements.convert_eq]
  | notList wrong =>
    simp only [convert, wrong]
    rfl

theorem Finds.unique {p : Parameter} {v : Value} {found found' : Except Fault p.Denote}
    (finds : p.Finds v found) (again : p.Finds v found') : found = found' :=
  Except.mapError_ofFault_injective (finds.convert_eq.symm.trans again.convert_eq)

theorem exists_finds (p : Parameter) (v : Value) : ∃ found, p.Finds v found := by
  cases p with
  | anything => exact ⟨_, .anything⟩
  | number =>
    by_cases numeric : ∃ x, v = .number x
    · obtain ⟨x, rfl⟩ := numeric
      exact ⟨_, .number⟩
    · exact ⟨_, .notNumber (not_exists.mp numeric)⟩
  | callable =>
    by_cases callable : ∃ c, v = .callable c
    · obtain ⟨c, rfl⟩ := callable
      exact ⟨_, .callable⟩
    · exact ⟨_, .notCallable (not_exists.mp callable)⟩
  | list e =>
    cases listed : v.toList? with
    | none => exact ⟨_, .notList listed⟩
    | some items =>
      obtain ⟨found, elements⟩ := e.exists_finds items
      exact ⟨found, .list listed elements⟩

/-! ### The arguments from the left -/

/-- Arguments as a function of these parameters receives them. -/
abbrev Arguments (params : List Parameter) : Type :=
  params.foldr (fun p β => p.Denote × β) Unit

/-- A function at its arguments. -/
def give {α : Type} : (params : List Parameter) → Function params α → Arguments params → α
  | [], a, _ => a
  | _ :: params, f, given => give params (f given.1) given.2

/-- What is found in the arguments from the left: all of them as a function receives them, with
those behind the last parameter, or what is wrong with the first one that is. -/
inductive FindsAll : (params : List Parameter) → List Value →
    Except Fault (Arguments params × List Value) → Prop where
  | done {left : List Value} : FindsAll [] left (.ok ((), left))
  | wrong {p : Parameter} {params : List Parameter} {v : Value} {vs : List Value} {fault : Fault}
      (first : p.Finds v (.error fault)) : FindsAll (p :: params) (v :: vs) (.error fault)
  | later {p : Parameter} {params : List Parameter} {v : Value} {vs : List Value} {x : p.Denote}
      {fault : Fault} (first : p.Finds v (.ok x)) (others : FindsAll params vs (.error fault)) :
      FindsAll (p :: params) (v :: vs) (.error fault)
  | right {p : Parameter} {params : List Parameter} {v : Value} {vs left : List Value}
      {x : p.Denote} {given : Arguments params} (first : p.Finds v (.ok x))
      (others : FindsAll params vs (.ok (given, left))) :
      FindsAll (p :: params) (v :: vs) (.ok ((x, given), left))

variable {params : List Parameter} {args : List Value}

theorem FindsAll.supply_eq {α : Type} {found : Except Fault (Arguments params × List Value)}
    (finds : FindsAll params args found) (f : Function params α) :
    supply params f args =
      (found.map fun given => (give params f given.1, given.2)).mapError .ofFault := by
  induction finds with
  | done => rfl
  | wrong first =>
    simp only [supply, first.convert_eq]
    rfl
  | later first _ ih =>
    simp only [supply, first.convert_eq]
    exact ih _
  | right first _ ih =>
    simp only [supply, first.convert_eq]
    exact ih _

theorem FindsAll.length_eq {given : Arguments params} {left : List Value}
    (finds : FindsAll params args (.ok (given, left))) :
    args.length = params.length + left.length := by
  generalize shape : Except.ok (given, left) = found at finds
  induction finds generalizing left with
  | done =>
    cases shape
    simp
  | wrong | later => cases shape
  | right first others ih =>
    cases shape
    have tail := ih rfl
    simp only [List.length_cons]
    omega

theorem exists_findsAll (enough : params.length ≤ args.length) :
    ∃ found, FindsAll params args found := by
  induction params generalizing args with
  | nil => exact ⟨_, .done⟩
  | cons p params ih =>
    obtain ⟨v, vs, rfl⟩ := List.exists_cons_of_length_pos (Nat.zero_lt_of_lt enough)
    obtain ⟨head, first⟩ := p.exists_finds v
    cases head with
    | error fault => exact ⟨_, .wrong first⟩
    | ok x =>
      obtain ⟨tail, others⟩ := ih (Nat.le_of_succ_le_succ enough)
      cases tail with
      | error fault => exact ⟨_, .later first others⟩
      | ok given => exact ⟨_, .right first others⟩

theorem FindsAll.unique {found found' : Except Fault (Arguments params × List Value)}
    (finds : FindsAll params args found) (again : FindsAll params args found') :
    found = found' := by
  induction finds with
  | done =>
    cases again
    rfl
  | wrong first =>
    cases again with
    | wrong same => exact congrArg _ (Except.error.inj (first.unique same))
    | later same _ | right same _ => exact absurd (first.unique same) nofun
  | later first _ ih =>
    cases again with
    | wrong same => exact absurd (first.unique same) nofun
    | later same others => exact congrArg _ (Except.error.inj (ih others))
    | right same others => exact absurd (ih others) nofun
  | right first _ ih =>
    cases again with
    | wrong same => exact absurd (first.unique same) nofun
    | later same others => exact absurd (ih others) nofun
    | right same others =>
      obtain rfl := Except.ok.inj (first.unique same)
      obtain ⟨rfl, rfl⟩ := Prod.mk.inj (Except.ok.inj (ih others))
      rfl

end Parameter

/-! ### Signatures -/

/-- The parameters of a function and, if it has a parameter for the arguments behind them, what
those must be. -/
structure Signature where
  params : List Parameter
  rest : Option Elements

namespace Signature

/-- The arguments behind the parameters as a function receives them. -/
abbrev Rest : Option Elements → Type
  | none => Unit
  | some e => List e.Denote

/-- What becomes of the arguments behind the parameters. -/
abbrev RestFunction (rest : Option Elements) (α : Type) : Type :=
  match rest with
  | none => α
  | some e => List e.Denote → α

/-- Functions with a signature. -/
abbrev Function (s : Signature) (α : Type) : Type :=
  Parameter.Function s.params (RestFunction s.rest α)

/-- All that a function with a signature receives. -/
abbrev Given (s : Signature) : Type :=
  Parameter.Arguments s.params × Rest s.rest

/-- A function at the arguments behind its parameters. -/
def giveRest {α : Type} : (rest : Option Elements) → RestFunction rest α → Rest rest → α
  | none, a, _ => a
  | some _, f, xs => f xs

/-- A function at all that it receives. -/
def give {α : Type} (s : Signature) (f : s.Function α) (given : s.Given) : α :=
  giveRest s.rest (Parameter.give s.params f given.1) given.2

/-- Whether a function with the signature takes so many arguments. -/
def Takes (s : Signature) (count : Nat) : Prop :=
  match s.rest with
  | none => count = s.params.length
  | some _ => s.params.length ≤ count

/-- What is found in the arguments behind the parameters. -/
inductive FindsRest : (rest : Option Elements) → List Value → Except Fault (Rest rest) → Prop where
  | none : FindsRest none [] (.ok ())
  | some {e : Elements} {left : List Value} {found : Except Fault (List e.Denote)}
      (elements : e.Finds left found) : FindsRest (some e) left found

/-- What is found in a list of arguments: all that the function receives, or the first thing that
is wrong. The declared arity comes first, then the number of arguments, then the parameters and
then the arguments behind them. -/
inductive Finds (declared : Arity) (s : Signature) (args : List Value) :
    Except Fault s.Given → Prop where
  | undeclared (refused : ¬ declared.Admits args.length) :
      Finds declared s args (.error (.arity declared.bound args.length))
  | count (admitted : declared.Admits args.length) (wrong : ¬ s.Takes args.length) :
      Finds declared s args (.error (.arity s.params.length args.length))
  | argument {fault : Fault} (admitted : declared.Admits args.length) (count : s.Takes args.length)
      (wrong : Parameter.FindsAll s.params args (.error fault)) :
      Finds declared s args (.error fault)
  | behind {given : Parameter.Arguments s.params} {left : List Value} {fault : Fault}
      (admitted : declared.Admits args.length) (count : s.Takes args.length)
      (right : Parameter.FindsAll s.params args (.ok (given, left)))
      (wrong : FindsRest s.rest left (.error fault)) : Finds declared s args (.error fault)
  | right {given : Parameter.Arguments s.params} {left : List Value} {rest : Rest s.rest}
      (admitted : declared.Admits args.length) (count : s.Takes args.length)
      (right : Parameter.FindsAll s.params args (.ok (given, left)))
      (behind : FindsRest s.rest left (.ok rest)) : Finds declared s args (.ok (given, rest))

variable {declared : Arity} {s : Signature} {args : List Value}

theorem Takes.enough (count : s.Takes args.length) : s.params.length ≤ args.length := by
  unfold Takes at count
  split at count
  · exact Nat.le_of_eq count.symm
  · exact count

theorem exists_findsRest {left : List Value} (count : s.Takes (s.params.length + left.length)) :
    ∃ found, FindsRest s.rest left found := by
  obtain ⟨params, rest⟩ := s
  cases rest with
  | none =>
    have nothing : params.length + left.length = params.length := count
    obtain rfl : left = [] := List.length_eq_zero_iff.mp (by omega)
    exact ⟨_, .none⟩
  | some e =>
    obtain ⟨found, elements⟩ := e.exists_finds left
    exact ⟨found, .some elements⟩

theorem FindsRest.unique {rest : Option Elements} {left : List Value}
    {found found' : Except Fault (Rest rest)} (finds : FindsRest rest left found)
    (again : FindsRest rest left found') : found = found' := by
  cases finds with
  | none =>
    cases again
    rfl
  | some elements =>
    cases again with
    | some same => exact elements.unique same

theorem exists_finds (declared : Arity) (s : Signature) (args : List Value) :
    ∃ found, s.Finds declared args found := by
  by_cases admitted : declared.Admits args.length
  · by_cases count : s.Takes args.length
    · obtain ⟨found, arguments⟩ := Parameter.exists_findsAll count.enough
      cases found with
      | error fault => exact ⟨_, .argument admitted count arguments⟩
      | ok received =>
        obtain ⟨given, left⟩ := received
        obtain ⟨found, behind⟩ := exists_findsRest (arguments.length_eq ▸ count)
        cases found with
        | error fault => exact ⟨_, .behind admitted count arguments behind⟩
        | ok rest => exact ⟨_, .right admitted count arguments behind⟩
    · exact ⟨_, .count admitted count⟩
  · exact ⟨_, .undeclared admitted⟩

theorem Finds.unique {found found' : Except Fault s.Given} (finds : s.Finds declared args found)
    (again : s.Finds declared args found') : found = found' := by
  cases finds with
  | undeclared refused =>
    cases again with
    | undeclared => rfl
    | count admitted | argument admitted | behind admitted | right admitted =>
      exact absurd admitted refused
  | count admitted wrong =>
    cases again with
    | undeclared refused => exact absurd admitted refused
    | count => rfl
    | argument _ count | behind _ count | right _ count => exact absurd count wrong
  | argument admitted count wrong =>
    cases again with
    | undeclared refused => exact absurd admitted refused
    | count _ other => exact absurd count other
    | argument _ _ same => exact congrArg _ (Except.error.inj (wrong.unique same))
    | behind _ _ right | right _ _ right => exact absurd (wrong.unique right) nofun
  | behind admitted count right wrong =>
    cases again with
    | undeclared refused => exact absurd admitted refused
    | count _ other => exact absurd count other
    | argument _ _ other => exact absurd (right.unique other) nofun
    | behind _ _ same other =>
      obtain ⟨-, rfl⟩ := Prod.mk.inj (Except.ok.inj (right.unique same))
      exact congrArg _ (Except.error.inj (wrong.unique other))
    | right _ _ same behind =>
      obtain ⟨-, rfl⟩ := Prod.mk.inj (Except.ok.inj (right.unique same))
      exact absurd (wrong.unique behind) nofun
  | right admitted count right behind =>
    cases again with
    | undeclared refused => exact absurd admitted refused
    | count _ other => exact absurd count other
    | argument _ _ other => exact absurd (right.unique other) nofun
    | behind _ _ same wrong =>
      obtain ⟨-, rfl⟩ := Prod.mk.inj (Except.ok.inj (right.unique same))
      exact absurd (behind.unique wrong) nofun
    | right _ _ same other =>
      obtain ⟨rfl, rfl⟩ := Prod.mk.inj (Except.ok.inj (right.unique same))
      obtain rfl := Except.ok.inj (behind.unique other)
      rfl

/-- Where an arity admits the arguments, nothing else depends on it. -/
theorem Finds.redeclared {declared' : Arity} {found : Except Fault s.Given}
    (finds : s.Finds declared args found) (admitted : declared.Admits args.length)
    (admitted' : declared'.Admits args.length) : s.Finds declared' args found := by
  cases finds with
  | undeclared refused => exact absurd admitted refused
  | count _ wrong => exact .count admitted' wrong
  | argument _ count wrong => exact .argument admitted' count wrong
  | behind _ count right wrong => exact .behind admitted' count right wrong
  | right _ count right behind => exact .right admitted' count right behind

/-- The answer of a native: a fault is raised, and only with arguments the function is run. -/
def answer {m : Type → Type} [MonadExceptOf Error m] (s : Signature)
    (f : s.Function (m Reply)) : Except Fault s.Given → m Reply
  | .error fault => throw (.ofFault fault)
  | .ok given => s.give f given

end Signature

/-- The natives that are made from a function with a signature, with the arity that is declared for
them: with exactly its parameters, with more arguments behind, and the entries of the library, whose
arity is checked in front. -/
inductive Typed : {m : Type → Type} → [MonadExceptOf Error m] → Arity → (s : Signature) →
    s.Function (m Reply) → (List Value → m Reply) → Prop where
  | fixed {m : Type → Type} [MonadExceptOf Error m] {params : List Parameter}
      {f : Parameter.Function params (m Reply)} :
      Typed .any ⟨params, none⟩ f (fixed params f)
  | variadic {m : Type → Type} [MonadExceptOf Error m] {declared : Arity}
      {params : List Parameter} {rest : Elements}
      {f : Parameter.Function params (List rest.Denote → m Reply)} :
      Typed declared ⟨params, some rest⟩ f (variadic declared params rest f)
  | entry {p : Primitive} {s : Signature} {f : s.Function (Except Error Reply)}
      (made : Typed .any s f p.body) : Typed p.arity s f p.run

theorem Arity.validate_error {declared : Arity} {count : Nat} (refused : ¬ declared.Admits count) :
    declared.validate count = .error (.ofFault (.arity declared.bound count)) :=
  if_neg refused

section

variable {m : Type → Type} [MonadExceptOf Error m] {declared : Arity}
  {params : List Parameter} {args : List Value}

theorem fixed_answers {f : Parameter.Function params (m Reply)}
    {found : Except Fault (Signature.Given ⟨params, none⟩)}
    (finds : Signature.Finds .any ⟨params, none⟩ args found) :
    fixed params f args = Signature.answer ⟨params, none⟩ f found := by
  unfold fixed
  cases finds with
  | undeclared refused => exact absurd trivial refused
  | count _ wrong => exact if_neg wrong
  | argument _ count wrong =>
    have exact : args.length = params.length := count
    rw [if_pos exact, wrong.supply_eq]
    rfl
  | behind _ _ _ wrong => cases wrong
  | right _ count right behind =>
    have exact : args.length = params.length := count
    rw [if_pos exact, right.supply_eq]
    rfl

theorem variadic_admitted {rest : Elements}
    (f : Parameter.Function params (List rest.Denote → m Reply))
    (admitted : declared.Admits args.length) (enough : params.length ≤ args.length) :
    variadic declared params rest f args =
      match Parameter.supply params f args with
      | .error e => throw e
      | .ok (g, left) =>
        match rest.convert left with
        | .error e => throw e
        | .ok xs => g xs := by
  rw [variadic, Arity.validate_eq_ok_iff.mpr admitted]
  exact if_neg (Nat.not_lt.mpr enough)

theorem variadic_answers {rest : Elements}
    {f : Parameter.Function params (List rest.Denote → m Reply)}
    {found : Except Fault (Signature.Given ⟨params, some rest⟩)}
    (finds : Signature.Finds declared ⟨params, some rest⟩ args found) :
    variadic declared params rest f args = Signature.answer ⟨params, some rest⟩ f found := by
  cases finds with
  | undeclared refused =>
    rw [variadic, Arity.validate_error refused]
    rfl
  | count admitted wrong =>
    rw [variadic, Arity.validate_eq_ok_iff.mpr admitted]
    exact if_pos (Nat.lt_of_not_le wrong)
  | argument admitted count wrong =>
    rw [variadic_admitted f admitted count, wrong.supply_eq]
    rfl
  | @behind given left fault admitted count right wrong =>
    cases wrong with
    | some elements =>
      rw [variadic_admitted f admitted count, right.supply_eq]
      show (match rest.convert left with
        | .error e => throw e
        | .ok xs => Parameter.give params f given xs) = _
      rw [elements.convert_eq]
      rfl
  | @right given left _ admitted count right behind =>
    cases behind with
    | some elements =>
      rw [variadic_admitted f admitted count, right.supply_eq]
      show (match rest.convert left with
        | .error e => throw e
        | .ok xs => Parameter.give params f given xs) = _
      rw [elements.convert_eq]
      rfl

end

/-- What is found is determined by the signature, the declared arity and the arguments. A native
that is made from a function raises what is found to be wrong, and is otherwise the function at
what it receives. -/
theorem Typed.runs_on_checked {m : Type → Type} [MonadExceptOf Error m] {declared : Arity}
    {s : Signature} {f : s.Function (m Reply)} {native : List Value → m Reply}
    (typed : Typed declared s f native) (args : List Value) :
    ∃ found, (∀ other, s.Finds declared args other ↔ other = found) ∧
      native args = s.answer f found := by
  obtain ⟨found, finds⟩ := s.exists_finds declared args
  refine ⟨found, fun other => ⟨fun again => again.unique finds, fun same => same ▸ finds⟩, ?_⟩
  induction typed with
  | fixed => exact fixed_answers finds
  | variadic => exact variadic_answers finds
  | @entry p s f made ih =>
    by_cases admitted : p.arity.Admits args.length
    · have body : p.run args = p.body args := by
        rw [Primitive.run, Arity.validate_eq_ok_iff.mpr admitted]
        rfl
      exact body.trans (ih found (finds.redeclared admitted trivial))
    · have refused : p.run args = .error (.ofFault (.arity p.arity.bound args.length)) := by
        rw [Primitive.run, Arity.validate_error admitted]
        rfl
      rw [finds.unique (.undeclared admitted)]
      exact refused

theorem Typed.entry_fixed {p : Primitive} {params : List Parameter}
    {f : Parameter.Function params (Except Error Reply)}
    (body : p.body = CooperativeLisp.fixed params f) : Typed p.arity ⟨params, none⟩ f p.run :=
  .entry (body ▸ .fixed)

theorem Typed.entry_variadic {p : Primitive} {params : List Parameter} {rest : Elements}
    {f : Parameter.Function params (List rest.Denote → Except Error Reply)}
    (body : p.body = CooperativeLisp.variadic .any params rest f) :
    Typed p.arity ⟨params, some rest⟩ f p.run :=
  .entry (body ▸ .variadic)

/-- A difference with a wrong number of arguments, with an argument that is no number in front of
another one, and with numbers only. -/
theorem Typed.runs_on_checked_difference :
    Typed (.atLeast 1) ⟨[.number], some .numbers⟩
      (fun x xs => replyValue (.number (Library.difference x xs))) (Primitive.run .subtract) ∧
    Primitive.run .subtract [] = .error (.ofFault (.arity 1 0)) ∧
    Primitive.run .subtract [.number 3, .number 1, .nil, .truth] =
      .error (.ofFault (.type (.expectedNumber .nil))) ∧
    Primitive.run .subtract [.number 3, .number 1] =
      .ok (.value (.number (Library.difference 3 [1]))) := by
  have typed : Typed (.atLeast 1) ⟨[.number], some .numbers⟩
      (fun x xs => replyValue (.number (Library.difference x xs))) (Primitive.run .subtract) :=
    .entry_variadic (p := .subtract) rfl
  have run {args : List Value} {found : Except Fault (Signature.Given ⟨[.number], some .numbers⟩)}
      (finds : Signature.Finds (.atLeast 1) ⟨[.number], some .numbers⟩ args found) :
      Primitive.run .subtract args = Signature.answer ⟨[.number], some .numbers⟩
        (fun x xs => replyValue (.number (Library.difference x xs))) found := by
    obtain ⟨_, only, answers⟩ := typed.runs_on_checked args
    exact (only _).mp finds ▸ answers
  have first {vs : List Value} :
      Parameter.FindsAll [.number] (.number 3 :: vs) (.ok ((3, ()), vs)) := .right .number .done
  have wrong : Elements.Finds .numbers ([1].map .number ++ .nil :: [.truth]) _ := .notNumber nofun
  have right : Elements.Finds .numbers ([1].map .number) (.ok [1]) := .numbers
  refine ⟨typed, run (.undeclared ?_), run (.behind ?_ ?_ first (.some wrong)),
    run (.right ?_ ?_ first (.some right))⟩ <;> simp [Arity.Admits, Signature.Takes]

/-- All natives of the library but the two that take any values are made from a function. -/
theorem Primitive.typed {p : Primitive} (notList : p ≠ .list) (notCall : p ≠ .call) :
    ∃ s f, Typed p.arity s f p.run := by
  cases p with
  | list => exact absurd rfl notList
  | call => exact absurd rfl notCall
  | add | multiply => exact ⟨⟨[], some .numbers⟩, _, .entry_variadic rfl⟩
  | error => exact ⟨⟨[], some .anything⟩, _, .entry_variadic rfl⟩
  | subtract | divide | equal | greater | less | atLeast | atMost =>
    exact ⟨_, _, .entry_variadic rfl⟩
  | not | cons | car | cdr | length | nth | isNull | apply => exact ⟨_, _, .entry_fixed rfl⟩

end CooperativeLisp

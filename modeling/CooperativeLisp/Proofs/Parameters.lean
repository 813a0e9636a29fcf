import CooperativeLisp.Proofs.Innermost
import CooperativeLisp.Proofs.Lookup
import CooperativeLisp.Proofs.Reserved

/-!
Lists of parameters, and what becomes of the arguments of an invocation. Main statement: a closure can
be made exactly if its parameters follow the grammar, and its body is compiled in a new scope inside of
its own environment that binds them by position.
-/

namespace CooperativeLisp

/-- What is written for the arguments behind the last parameter. -/
def Rest.written : Rest → List Value
  | .ignored => []
  | .discarded => [.symbol "&rest"]
  | .named name => [.symbol "&rest", .symbol name]

namespace LambdaList

/-- All names that an invocation with these parameters binds to arguments. -/
def names (l : LambdaList) : List String :=
  l.params ++ l.rest.name?.toList

/-- The names are distinct, and none of them stands for a marker. -/
structure Proper (l : LambdaList) : Prop where
  distinct : l.names.Nodup
  free : ∀ name ∈ l.names, name ∉ ["nil", "t", "&rest"]

/-- The parameters and what follows them, as they are written. -/
def written (l : LambdaList) : List Value :=
  l.params.map Value.symbol ++ l.rest.written

/-- The grammar of lists of parameters. -/
inductive Reads : Value → LambdaList → Prop
  | nil : Reads .nil ⟨[], .ignored⟩
  | list {l : LambdaList} : l.Proper → Reads (.list l.written) l

variable {seen : List String} {vs args : List Value} {l : LambdaList} {name : String} {v : Value}

/-! ### The grammar -/

theorem Proper.unreserved (proper : l.Proper) (member : name ∈ l.names) :
    Symbol.isReserved name = false :=
  Scopes.isReserved_eq_false_iff.mpr (proper.free name member)

/-- The first parameter is a name that no other parameter has. -/
theorem Proper.cons {params : List String} {rest : Rest} (proper : Proper ⟨params, rest⟩)
    (free : Symbol.isReserved name = false) (once : name ∉ names ⟨params, rest⟩) :
    Proper ⟨name :: params, rest⟩ := by
  refine ⟨List.nodup_cons.mpr ⟨once, proper.distinct⟩, fun other member => ?_⟩
  rcases List.mem_cons.mp member with rfl | later
  · exact Scopes.isReserved_eq_false_iff.mp free
  · exact proper.free other later

/-- What is read behind the rest marker is one name that was not seen, or nothing. -/
theorem readRest_proper {rest : Rest} (read : readRest seen vs = .ok rest) :
    Proper ⟨[], rest⟩ ∧ .symbol Symbol.restMarker :: vs = rest.written ∧
      ∀ name ∈ names ⟨[], rest⟩, name ∉ seen := by
  have fresh := readRest_fresh read
  obtain ⟨behind, rfl, rfl, free⟩ := readRest_ok read
  cases behind with
  | none => exact ⟨⟨List.nodup_nil, nofun⟩, rfl, nofun⟩
  | some name =>
    refine ⟨⟨List.nodup_singleton name, fun other single => ?_⟩, rfl, fun other single => ?_⟩
    · exact Scopes.isReserved_eq_false_iff.mp (free other single)
    · obtain rfl := List.mem_singleton.mp single
      exact fresh other rfl

/-- What is read follows the grammar. By induction on the values, with the names that have been seen
in front of them. -/
theorem readAfter_proper (read : readAfter seen vs = .ok l) :
    ∃ params rest, l = ⟨seen.reverse ++ params, rest⟩ ∧ vs = written ⟨params, rest⟩ ∧
      Proper ⟨params, rest⟩ ∧ ∀ name ∈ names ⟨params, rest⟩, name ∉ seen := by
  induction vs generalizing seen with
  | nil =>
    cases read
    exact ⟨[], .ignored, by rw [List.append_nil], rfl, ⟨List.nodup_nil, nofun⟩, nofun⟩
  | cons v more ih =>
    obtain ⟨name, named, tail⟩ := Error.of_bind_ok read
    obtain rfl := nameOf_ok named
    split at tail
    · rename_i isRest
      obtain rfl := eq_of_beq isRest
      obtain ⟨rest, last, ended⟩ := Error.of_bind_ok tail
      obtain ⟨proper, written, fresh⟩ := readRest_proper last
      cases ended
      exact ⟨[], rest, by rw [List.append_nil], written, proper, fresh⟩
    dsimp only at tail
    split at tail
    · cases tail
    rename_i free
    split at tail
    · cases tail
    rename_i unseen
    obtain ⟨params, rest, rfl, rfl, proper, fresh⟩ := ih tail
    have once : name ∉ names ⟨params, rest⟩ := fun twice => fresh name twice List.mem_cons_self
    refine ⟨name :: params, rest, ?_, rfl, proper.cons (Bool.eq_false_iff.mpr free) once, ?_⟩
    · rw [List.reverse_cons, List.append_assoc, List.singleton_append]
    · refine List.forall_mem_cons.mpr ⟨by simpa using unseen, fun other member before => ?_⟩
      exact fresh other member (List.mem_cons_of_mem _ before)

/-- What follows the grammar is read. -/
theorem Proper.read (proper : l.Proper) : readAfter [] l.written = .ok l := by
  obtain ⟨params, rest⟩ := l
  have distinct := proper.distinct
  obtain ⟨first, -, apart⟩ := List.nodup_append.mp distinct
  have free : ∀ name ∈ params, Symbol.isReserved name = false := fun name member =>
    proper.unreserved (List.mem_append_left _ member)
  have last : readAfter params.reverse rest.written = .ok ⟨params, rest⟩ := by
    have marked : ∀ behind : Option String, rest.name? = behind →
        readAfter params.reverse (.symbol Symbol.restMarker :: behind.toList.map Value.symbol) =
          .ok ⟨params.reverse.reverse, .behind behind⟩ := by
      rintro behind rfl
      refine readAfter_rest (fun name member => proper.unreserved (List.mem_append_right _ member)) ?_
      intro name member twice
      exact apart name (List.mem_reverse.mp twice) name member rfl
    rw [List.reverse_reverse] at marked
    cases rest with
    | ignored => rw [Rest.written, readAfter, List.reverse_reverse]
    | discarded => exact marked none rfl
    | named name => exact marked (some name) rfl
  rw [written, readAfter_names first free (fun _ _ => List.not_mem_nil), List.append_nil]
  exact last

/-- The reader accepts exactly what follows the grammar. -/
theorem read_ok_iff : read v = .ok l ↔ Reads v l := by
  constructor
  · intro accepted
    unfold read at accepted
    cases v with
    | nil =>
      cases accepted
      exact .nil
    | list items =>
      obtain ⟨params, rest, rfl, rfl, proper, -⟩ := readAfter_proper accepted
      exact .list proper
    | number | symbol | truth | callable => cases accepted
  · intro reads
    cases reads with
    | nil => rfl
    | list proper => exact proper.read

theorem Reads.proper (reads : Reads v l) : l.Proper := by
  cases reads with
  | nil => exact ⟨List.nodup_nil, nofun⟩
  | list proper => exact proper

/-! ### Binding by position -/

/-- There is one entry for each name. -/
theorem entries_keys : (l.entries args).map Prod.fst = l.names := by
  have enough : l.params.length ≤
      (args ++ List.replicate (l.params.length - args.length) Value.nil).length := by
    rw [List.length_append, List.length_replicate]
    omega
  rw [entries, names, List.map_append, List.map_fst_zip enough]
  cases l.rest.name? <;> rfl

/-- Nil is filled in for the values that are missing. -/
theorem filled_getElem? {n i : Nat} (within : i < n) :
    (args ++ List.replicate (n - args.length) Value.nil)[i]? = some (args.getD i .nil) := by
  rw [List.getElem?_append, List.getElem?_replicate, List.getD_eq_getElem?_getD]
  by_cases given : i < args.length
  · rw [if_pos given, List.getElem?_eq_getElem given, Option.getD_some]
  · have missing : i - args.length < n - args.length := by omega
    rw [if_neg given, if_pos missing, List.getElem?_eq_none (by omega), Option.getD_none]

/-- A parameter has the argument in its place, or nil if there are fewer. -/
theorem entries_positional {i : Nat} (param : l.params[i]? = some name) :
    (name, args.getD i .nil) ∈ l.entries args := by
  have within : i < l.params.length := (List.getElem?_eq_some_iff.mp param).1
  refine List.mem_append_left _ (List.mem_of_getElem? (i := i) ?_)
  exact List.getElem?_zip_eq_some.mpr ⟨param, filled_getElem? within⟩

/-- The rest parameter has the arguments behind the parameters. -/
theorem entries_behind (rest : l.rest = .named name) :
    (name, .list (args.drop l.params.length)) ∈ l.entries args := by
  refine List.mem_append_right _ ?_
  rw [rest]
  exact List.mem_singleton_self _

end LambdaList

theorem Scopes.find?_congr {scopes scopes' : Scopes} {name : String} {chain : List ScopeId}
    (same : ∀ x ∈ chain, scopes'.local? x name = scopes.local? x name) :
    scopes'.find? name chain = scopes.find? name chain := by
  induction chain with
  | nil => rfl
  | cons x outer ih =>
    obtain ⟨here, around⟩ := List.forall_mem_cons.mp same
    rw [find?, find?, here, ih around]

/-- If no other entry has its name, an entry counts wherever it stands. -/
theorem lookup_reverse_of_mem {entries : List (String × Value)} {name : String} {v : Value}
    (distinct : (entries.map Prod.fst).Nodup) (member : (name, v) ∈ entries) :
    entries.reverse.lookup name = some v := by
  induction entries with
  | nil => cases member
  | cons entry entries ih =>
    obtain ⟨once, distinct⟩ := List.nodup_cons.mp distinct
    rcases List.mem_cons.mp member with rfl | later
    · refine lookup_reverse_cons fun other member same => once ?_
      exact List.mem_map.mpr ⟨other, member, same⟩
    · rw [List.reverse_cons, List.lookup_append, ih distinct later, Option.some_or]

namespace Closure

variable {σ : Type} {identity : Nat} {p body : Value} {env scope : Environment} {c : Closure}
variable {args : List Value} {name : String} {v : Value} {w w₁ : World σ}

theorem make_ok_iff : make identity p body env = .ok c ↔
    ∃ l, LambdaList.Reads p l ∧ c = ⟨identity, l.params, l.rest, body, env⟩ := by
  unfold make
  cases read : LambdaList.read p with
  | error e =>
    refine ⟨nofun, fun ⟨l, reads, _⟩ => ?_⟩
    cases read.symm.trans (LambdaList.read_ok_iff.mpr reads)
  | ok l =>
    refine ⟨fun made => ?_, fun ⟨other, reads, same⟩ => ?_⟩
    · cases made
      exact ⟨l, LambdaList.read_ok_iff.mp read, rfl⟩
    · cases read.symm.trans (LambdaList.read_ok_iff.mpr reads)
      rw [same]

/-- The parameters of a closure. -/
def lambdaList (c : Closure) : LambdaList :=
  ⟨c.params, c.rest⟩

/-- An invocation opens a scope inside of the environment of the closure that binds the arguments by
position, and it does nothing else. -/
structure Binds (c : Closure) (args : List Value) (w : World σ) (scope : Environment)
    (w₁ : World σ) : Prop where
  inside : scope.parent? = some c.env
  fresh : scope.scope = w.scopes.tables.size
  opened : w₁.scopes.tables.size = w.scopes.tables.size + 1
  kept : ∀ x ≠ scope.scope, ∀ name, w₁.scopes.local? x name = w.scopes.local? x name
  closures : w₁.closures = w.closures
  host : w₁.host = w.host
  positional : ∀ i name, c.params[i]? = some name →
    w₁.scopes.get? scope name = some (args.getD i .nil)
  behind : ∀ name, c.rest = .named name →
    w₁.scopes.get? scope name = some (.list (args.drop c.params.length))
  /-- Each argument goes to one place. -/
  divided : ∃ front rest, args = front ++ rest ∧ (rest ≠ [] → front.length = c.params.length) ∧
    c.params.map (w₁.scopes.get? scope) =
      (front ++ List.replicate (c.params.length - front.length) Value.nil).map some ∧
    ∀ name, c.rest = .named name → w₁.scopes.get? scope name = some (.list rest)
  self : "recur" ∉ c.lambdaList.names →
    w₁.scopes.get? scope "recur" = some (.callable (.closure c))
  other : ∀ name, name ≠ "recur" → name ∉ c.lambdaList.names →
    w₁.scopes.local? scope.scope name = none ∧
      w₁.scopes.get? scope name = w.scopes.get? c.env name

theorem lookup_arguments : (c.arguments args).reverse.lookup name =
    ((c.lambdaList.entries args).reverse.lookup name).or
      (if name = "recur" then some (.callable (.closure c)) else none) := by
  have self : [(Symbol.selfName, Value.callable (.closure c))].lookup name =
      if name = "recur" then some (.callable (.closure c)) else none := by
    by_cases same : name = "recur"
    · simp [same, Symbol.selfName]
    · have other : (name == Symbol.selfName) = false := beq_eq_false_iff_ne.mpr same
      simp [List.lookup_cons, other, same]
  rw [arguments_eq, List.reverse_cons, List.lookup_append, self]
  rfl

/-- Where the arguments are bound, a name stands for its argument, or for the closure that runs, or for
what it stands for outside. -/
theorem get?_enter (opened : ∀ x ∈ c.env.chain, x < w.scopes.tables.size) :
    (w.enter c args).2.scopes.get? (w.enter c args).1 name =
      (((c.lambdaList.entries args).reverse.lookup name).or
        (if name = "recur" then some (.callable (.closure c)) else none)).or
          (w.scopes.get? c.env name) := by
  have outer : (w.enter c args).2.scopes.find? name c.env.chain = w.scopes.find? name c.env.chain :=
    Scopes.find?_congr fun x member => w.enter_old c args (opened x member) name
  have inner := w.enter_new c args name
  rw [Table.ofEntries_get, lookup_arguments] at inner
  rw [Scopes.get?, Scopes.get?, ← outer, ← inner]
  show Scopes.find? _ name (w.scopes.tables.size :: c.env.chain) = _
  rw [Scopes.find?]
  cases (w.enter c args).2.scopes.local? w.scopes.tables.size name <;> rfl

/-- An invocation binds the arguments by position, whatever the world. -/
theorem binds_enter (proper : c.lambdaList.Proper) (args : List Value)
    (opened : ∀ x ∈ c.env.chain, x < w.scopes.tables.size) :
    c.Binds args w (w.enter c args).1 (w.enter c args).2 := by
  have keys : ((c.lambdaList.entries args).map Prod.fst) = c.lambdaList.names :=
    LambdaList.entries_keys
  have bound {name : String} {v : Value} (member : (name, v) ∈ c.lambdaList.entries args) :
      (w.enter c args).2.scopes.get? (w.enter c args).1 name = some v := by
    rw [get?_enter opened, lookup_reverse_of_mem (keys ▸ proper.distinct) member]
    rfl
  have free {name : String} (other : name ∉ c.lambdaList.names) :
      (c.lambdaList.entries args).reverse.lookup name = none := by
    refine List.lookup_eq_none_iff.mpr fun entry member => bne_iff_ne.mpr fun same => other ?_
    rw [← keys, same]
    exact List.mem_map_of_mem (List.mem_reverse.mp member)
  have positional (i : Nat) (name : String) (param : c.params[i]? = some name) :
      (w.enter c args).2.scopes.get? (w.enter c args).1 name = some (args.getD i .nil) :=
    bound (LambdaList.entries_positional param)
  have behind (name : String) (rest : c.rest = .named name) :
      (w.enter c args).2.scopes.get? (w.enter c args).1 name =
        some (.list (args.drop c.params.length)) :=
    bound (LambdaList.entries_behind (l := c.lambdaList) rest)
  refine ⟨rfl, rfl, w.enter_size c args, fun x other => w.enter_other c args other, rfl, rfl,
    positional, behind, ?_, ?_, ?_⟩
  · refine ⟨args.take c.params.length, args.drop c.params.length,
      (List.take_append_drop ..).symm, fun more => ?_, ?_, behind⟩
    · have longer : c.params.length < args.length := by simpa using more
      rw [List.length_take]
      omega
    · refine List.ext_getElem? fun i => ?_
      rw [List.getElem?_map, List.getElem?_map]
      by_cases within : i < c.params.length
      · have same : (args.take c.params.length).getD i .nil = args.getD i .nil := by
          rw [List.getD_eq_getElem?_getD, List.getElem?_take_of_lt within,
            List.getD_eq_getElem?_getD]
        rw [LambdaList.filled_getElem? within, same, List.getElem?_eq_getElem within]
        exact congrArg some (positional i _ (List.getElem?_eq_getElem within))
      · have all : (args.take c.params.length ++ List.replicate
            (c.params.length - (args.take c.params.length).length) Value.nil).length =
              c.params.length := by
          rw [List.length_append, List.length_replicate, List.length_take]
          omega
        rw [List.getElem?_eq_none (by omega), List.getElem?_eq_none (by omega)]
        rfl
  · intro other
    rw [get?_enter opened, free other]
    rfl
  · intro name notSelf other
    refine ⟨?_, ?_⟩
    · show (w.enter c args).2.scopes.local? w.scopes.tables.size name = none
      rw [w.enter_new, Table.ofEntries_get, lookup_arguments, free other, if_neg notSelf]
      rfl
    · rw [get?_enter opened, free other, if_neg notSelf]
      rfl

end Closure

namespace Host

variable {σ : Type} {host : Host σ} {c : Closure} {args : List Value} {w w' : World σ}

/-- Invoking a closure is compiling its body in the scope of its arguments. -/
theorem performs_closure {answer : Except Error Outcome} :
    host.Performs (.callable (.closure c)) args w answer w' ↔
      ∃ s, answer = .ok (.stream s) ∧
        host.Answers (·.compile (w.enter c args).1 c.body) (w.enter c args).2 s w' := by
  constructor
  · rintro ⟨fuel, run⟩
    cases fuel with
    | zero => cases run
    | succ fuel =>
      obtain ⟨reply, w₁, replied, handled⟩ := Effect.bind_eq_some.mp
        ((congrFun (Engine.invokeWithin_succ _ fuel (.closure c) args) w).symm.trans run)
      cases (Engine.reply_closure rfl).symm.trans replied
      obtain ⟨s, compiled, rfl⟩ := Effect.map_eq_some.mp handled
      exact ⟨s, rfl, fuel + 1, compiled⟩
  · rintro ⟨s, rfl, compiled⟩
    exact invokes_of_reply (fun _ _ => Engine.reply_closure rfl) (handles_compile compiled)

end Host

namespace Closure

variable {σ : Type}

/-- A closure can be made exactly if its parameters follow the grammar. However many arguments it is
invoked with, its body is compiled in a new scope inside of its environment that binds them by
position: nil stands in for those that are missing, and those behind the parameters go to the rest
parameter or nowhere. Nothing else is done. -/
theorem binds_by_position (host : Host σ) (identity : Nat) (p body : Value) (env : Environment) :
    (∀ c, make identity p body env = .ok c ↔
      ∃ l, LambdaList.Reads p l ∧ c = ⟨identity, l.params, l.rest, body, env⟩) ∧
    ∀ c, make identity p body env = .ok c → ∀ (args : List Value) (w : World σ),
      (∀ x ∈ env.chain, x < w.scopes.tables.size) →
      ∃ scope w₁, c.Binds args w scope w₁ ∧
        ∀ answer w', host.Performs (.callable (.closure c)) args w answer w' ↔
          ∃ s, answer = .ok (.stream s) ∧ host.Answers (·.compile scope body) w₁ s w' := by
  refine ⟨fun c => make_ok_iff, fun c made args w opened => ?_⟩
  obtain ⟨l, reads, rfl⟩ := make_ok_iff.mp made
  have binds := binds_enter (c := ⟨identity, l.params, l.rest, body, env⟩) reads.proper args opened
  exact ⟨_, _, binds, fun _ _ => Host.performs_closure⟩

/-- With one argument for two parameters, nil and the empty list are bound besides it; with three, the
last one is all that the rest parameter has. -/
theorem binds_by_position_rest :
    let p : Value := .list [.symbol "a", .symbol "b", .symbol "&rest", .symbol "recur"]
    let w : World Unit := ⟨{ tables := #[Table.ofEntries [("x", .truth)]] }, 0, ()⟩
    let c : Closure := ⟨0, ["a", "b"], .named "recur", .symbol "b", ⟨0, []⟩⟩
    make 0 p c.body c.env = .ok c ∧ (∀ x ∈ c.env.chain, x < w.scopes.tables.size) ∧
      (∃ scope w₁, c.Binds [.number 1] w scope w₁ ∧
        w₁.scopes.get? scope "a" = some (.number 1) ∧ w₁.scopes.get? scope "b" = some .nil ∧
        w₁.scopes.get? scope "recur" = some (.list []) ∧
        w₁.scopes.get? scope "x" = w.scopes.get? c.env "x" ∧
        ∃ s, (Host.none Unit).Performs (.callable (.closure c)) [.number 1] w (.ok (.stream s)) w₁) ∧
      ∃ scope w₁, c.Binds [.number 1, .number 2, .number 3] w scope w₁ ∧
        w₁.scopes.get? scope "b" = some (.number 2) ∧
        w₁.scopes.get? scope "recur" = some (.list [.number 3]) := by
  intro p w c
  have made : make 0 p c.body c.env = .ok c := rfl
  have opened : ∀ x ∈ c.env.chain, x < w.scopes.tables.size := by
    intro x member
    obtain rfl := List.mem_singleton.mp member
    exact Nat.zero_lt_one
  have invoked := (binds_by_position (Host.none Unit) 0 p c.body c.env).2 c made
  obtain ⟨scope, w₁, binds, performs⟩ := invoked [.number 1] w opened
  obtain ⟨scope', w₂, binds', -⟩ := invoked [.number 1, .number 2, .number 3] w opened
  have param : w₁.scopes.get? scope "b" = some .nil := binds.positional 1 "b" rfl
  have resolves : (Host.none Unit).Resolves scope c.body w₁ (.ok (.value .nil)) w₁ :=
    .symbol (by decide) (by decide) param
  obtain ⟨s, compiled, -⟩ := resolves.places.compile
  exact ⟨made, opened, ⟨scope, w₁, binds, binds.positional 0 "a" rfl, param,
    binds.behind "recur" rfl, (binds.other "x" (by decide) (by decide)).2, s,
    (performs _ _).mpr ⟨s, rfl, compiled⟩⟩, scope', w₂, binds', binds'.positional 1 "b" rfl,
    binds'.behind "recur" rfl⟩

end Closure

end CooperativeLisp

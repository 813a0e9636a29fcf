import CooperativeLisp.Proofs.Lockstep
import CooperativeLisp.Proofs.Steadfast

/-!
The ways of calling. A callable is called by a symbol that is bound to it, by an expression that has it
for its value, by the native that invokes its first argument, and by the native that invokes it with the
items of a list. Main statement: they all evaluate the operands and then call it with the values, and
only the natives in between tell them apart.
-/

namespace CooperativeLisp

variable {σ : Type}

/-- A way of calling what a symbol is bound to. -/
inductive Way where
  | plain | computed | called | applied
deriving DecidableEq, Repr

namespace Way

/-- A call as it is written. -/
def expression (name : String) (es : List Value) : Way → Value
  | plain => Library.apply (.symbol name) es
  | computed => Library.apply (Library.apply (.symbol "progn") [.symbol name]) es
  | called => Library.apply (.symbol "call") (.symbol name :: es)
  | applied => Library.apply (.symbol "apply") [.symbol name, Library.apply (.symbol "list") es]

/-- The natives that are invoked before the callable is. -/
def natives (c : Callable) (args : List Value) : Way → CallLog
  | plain => []
  | computed | called => [(.native (.primitive .call), .callable c :: args)]
  | applied => [(.native (.primitive .list), args),
      (.native (.primitive .apply), [.callable c, .list args])]

/-- What is invoked in two ways of calling agrees: it is the same, or it is the same up to where each
way invokes its own natives and the callable with the same arguments, and from there on. Of calls that
are cut off before the callable is invoked, the first one may have come to its natives. -/
inductive Agree (c : Callable) (a b : Way) (ended : Bool) : CallLog → CallLog → Prop
  | same {log : CallLog} : Agree c a b ended log log
  | between {before own : CallLog} {args : List Value} : ended = false → own <+: a.natives c args →
      Agree c a b ended (before ++ own) before
  | behind {before after : CallLog} {args : List Value} :
      Agree c a b ended (before ++ a.natives c args ++ (c, args) :: after)
        (before ++ b.natives c args ++ (c, args) :: after)

theorem Agree.prepend {c : Callable} {a b : Way} {ended : Bool} {log log' : CallLog} (more : CallLog)
    (agree : Agree c a b ended log log') : Agree c a b ended (more ++ log) (more ++ log') := by
  cases agree with
  | same => exact .same
  | between cut own =>
    rw [← List.append_assoc]
    exact .between cut own
  | behind =>
    simp only [← List.append_assoc]
    exact .behind

/-- The expression that the call counts as, once the operator has been looked at. -/
def origin (name : String) (es : List Value) : Way → Value
  | computed => Library.apply Engine.callNative
      (Library.apply (.symbol "progn") [.symbol name] :: es)
  | way => way.expression name es

/-- The tree of a call, for the trees of the operands. -/
def tree (c : Callable) (name : String) (es : List Value) (ts : List Resolved) (way : Way) :
    Resolved :=
  match way with
  | plain => .application (.callable c) ts (way.origin name es)
  | computed | called => .application (.callable (.native (.primitive .call)))
      (.value (.callable c) :: ts) (way.origin name es)
  | applied => .application (.callable (.native (.primitive .apply)))
      [.value (.callable c), .application (.callable (.native (.primitive .list))) ts
        (Library.apply (.symbol "list") es)] (way.origin name es)

/-- The values below those of the operands. -/
def held (c : Callable) : Way → List Value
  | plain => []
  | _ => [.callable c]

/-- The frames behind those of so many operands. -/
def tail (c : Callable) (name : String) (es : List Value) (argc : Nat) (way : Way) : List Frame :=
  match way with
  | plain => [.call (.callable c) argc (way.origin name es)]
  | computed | called =>
    [.call (.callable (.native (.primitive .call))) (argc + 1) (way.origin name es)]
  | applied =>
    [.call (.callable (.native (.primitive .list))) argc (Library.apply (.symbol "list") es),
      .call (.callable (.native (.primitive .apply))) 2 (way.origin name es)]

/-- The frames of the tree are those of the operands, with the callable in front of them where the way
needs it as a value. -/
theorem tree_frames (c : Callable) (name : String) (es : List Value) (ts : List Resolved) (way : Way) :
    (way.tree c name es ts).frames =
      (way.held c).map .value ++ (Resolved.allFrames ts ++ way.tail c name es ts.length) := by
  cases way <;> simp [tree, held, tail, Resolved.frames, Resolved.allFrames]

/-- What is left of a call once its operands are evaluated. -/
def remains (c : Callable) (name : String) (es : List Value) (argc : Nat) (stack trace : List Value)
    (cap : BacktraceCap) (way : Way) : Advance :=
  (Machine.above ⟨way.tail c name es argc, way.held c, [], cap⟩ [] stack trace).settle

/-- The call of the callable with the values of the operands, once the natives of the way are done. -/
def calls (c : Callable) (name : String) (es args trace : List Value) (cap : BacktraceCap)
    (way : Way) : Machine :=
  let trace := match way with
    | applied => (Library.apply (.symbol "list") es :: trace).take cap
    | _ => trace
  ⟨[.call (.callable c) args.length (way.origin name es)], args.reverse ++ [], trace, cap⟩

/-- The operands that are compiled behind those of the call itself. -/
def front (name : String) : Way → List Value
  | plain => []
  | computed => [Library.apply (.symbol "progn") [.symbol name]]
  | called | applied => [.symbol name]

end Way

/-- The names that the ways of calling rely on stand for what they stand for in the library. -/
structure Scopes.Standard (scopes : Scopes) (env : Environment) : Prop where
  call : scopes.get? env "call" = some (.callable (.native (.primitive .call)))
  apply : scopes.get? env "apply" = some (.callable (.native (.primitive .apply)))
  list : scopes.get? env "list" = some (.callable (.native (.primitive .list)))
  progn : scopes.get? env "progn" = some (.callable (.form .sequence))

theorem Scopes.operator_bound {scopes : Scopes} {env : Environment} {name : String} {c : Callable}
    (bound : scopes.get? env name = some (.callable c)) :
    scopes.operator env (.symbol name) = .ok c := by
  simp only [operator, bound]

namespace Host

variable {host : Host σ} {env : Environment} {name : String} {c : Callable} {es : List Value}
variable {w w' w₁ : World σ} {log : CallLog} {till : Option (World σ)}

/-! ### Trees -/

/-- What resolving the operands leaves alone. -/
def Spares (host : Host σ) (env : Environment) (name : String) (c : Callable) (es : List Value)
    (w : World σ) : Prop :=
  ∀ ts w₁, host.ResolvesAll env es w (.ok ts) w₁ →
    w₁.scopes.get? env name = some (.callable c) ∧
      w₁.scopes.get? env "progn" = some (.callable (.form .sequence))

/-- Where environments are touched only by binding names that are not bound, operands that are held
leave alone what is bound. -/
theorem Writes.spares {roots : ScopeId → Prop} {keeps : Scopes → σ → Prop}
    (writes : host.Writes roots False keeps) (sound : w.Sound roots keeps)
    (genuine : env.Genuine roots w.scopes) (held : ∀ e ∈ es, e.Held roots w.scopes)
    (bound : w.scopes.get? env name = some (.callable c))
    (progn : w.scopes.get? env "progn" = some (.callable (.form .sequence))) :
    host.Spares env name c es w := by
  intro ts w₁ resolves
  have kept := (resolves.steadfast writes sound genuine held).1.kept
  exact ⟨kept.get? not_false genuine bound, kept.get? not_false genuine progn⟩

theorem resolves_progn {r : Except Fault Resolved} (notNil : name ≠ "nil") (notTruth : name ≠ "t")
    (bound : w.scopes.get? env name = some (.callable c))
    (progn : w.scopes.get? env "progn" = some (.callable (.form .sequence))) :
    host.Resolves env (Library.apply (.symbol "progn") [.symbol name]) w r w' ↔
      r = .ok (.value (.callable c)) ∧ w' = w := by
  rw [resolves_form (f := .sequence) (Scopes.operator_bound progn) trivial]
  have first {first : Except Fault Resolved} : host.Resolves env (.symbol name) w first w' ↔
      first = .ok (.value (.callable c)) ∧ w' = w := resolves_symbol notNil notTruth bound
  constructor
  · intro applies
    cases applies with
    | sequence resolves =>
      obtain ⟨rfl, rfl⟩ := first.mp resolves
      exact ⟨rfl, rfl⟩
  · rintro ⟨rfl, rfl⟩
    exact .sequence (first.mpr ⟨rfl, rfl⟩)

/-- In the worlds where operands have been resolved, an expression stands for a callable. -/
def Stands (host : Host σ) (env : Environment) (e : Value) (c : Callable) (es : List Value)
    (w : World σ) : Prop :=
  ∀ {ts w₁ r w'}, host.ResolvesAll env es w (.ok ts) w₁ →
    (host.Resolves env e w₁ r w' ↔ r = .ok (.value (.callable c)) ∧ w' = w₁)

/-- A native is applied to what stands for a callable, and to other operands. -/
theorem resolves_callee {n : Native} {operator e : Value} {r : Except Fault Resolved}
    (resolved : w.scopes.operator env operator = .ok (.native n)) (stands : host.Stands env e c es w) :
    host.Resolves env (Library.apply operator (e :: es)) w r w' ↔
      ∃ all, host.ResolvesAll env es w all w' ∧ r = all.map fun ts =>
        .application (.callable (.native n)) (.value (.callable c) :: ts)
          (Library.apply operator (e :: es)) := by
  rw [resolves_function resolved trivial]
  constructor
  · rintro ⟨_, operands, rfl⟩
    rcases resolvesAll_cons.mp operands with ⟨f, all, rfl⟩ | ⟨ts, w₁, first, all, resolves, rfl⟩
    · exact ⟨.error f, all, rfl⟩
    · obtain ⟨rfl, rfl⟩ := (stands all).mp resolves
      exact ⟨.ok ts, all, rfl⟩
  · rintro ⟨all, resolves, rfl⟩
    cases all with
    | error f => exact ⟨_, .fails resolves, rfl⟩
    | ok ts => exact ⟨_, .cons resolves ((stands resolves).mpr ⟨rfl, rfl⟩), rfl⟩

theorem resolvesAll_single {e : Value} {r : Except Fault (List Resolved)} :
    host.ResolvesAll env [e] w r w' ↔ ∃ one, host.Resolves env e w one w' ∧ r = one.map ([·]) := by
  constructor
  · exact fun all => all.of_single
  · rintro ⟨one, resolves, rfl⟩
    exact .single resolves

/-- Every way of calling resolves the operands of the call, and has no other effect. -/
theorem resolves_way (standard : w.scopes.Standard env) (function : c.IsFunction)
    (notNil : name ≠ "nil") (notTruth : name ≠ "t")
    (bound : w.scopes.get? env name = some (.callable c)) (spares : host.Spares env name c es w)
    (way : Way) {r : Except Fault Resolved} :
    host.Resolves env (way.expression name es) w r w' ↔ ∃ all, host.ResolvesAll env es w all w' ∧
      r = all.map fun ts => way.tree c name es ts := by
  -- The operator is looked up before the operands are resolved, the symbol in front of them after that.
  have symbol : host.Stands env (.symbol name) c es w := fun all =>
    resolves_symbol notNil notTruth (spares _ _ all).1
  cases way with
  | plain => exact resolves_function (Scopes.operator_bound bound) function
  | computed =>
    have progn : host.Stands env (Library.apply (.symbol "progn") [.symbol name]) c es w :=
      fun all => resolves_progn notNil notTruth (spares _ _ all).1 (spares _ _ all).2
    have computes : (Library.apply (.symbol "progn") [.symbol name]).IsComputed := ⟨_, _, rfl⟩
    have operator : w.scopes.operator env Engine.callNative = .ok (.native (.primitive .call)) := rfl
    exact (resolves_computed computes).trans (resolves_callee operator progn)
  | called => exact resolves_callee (Scopes.operator_bound standard.call) symbol
  | applied =>
    have list {all : Except Fault (List Resolved)} {w' : World σ} :
        host.ResolvesAll env [Library.apply (.symbol "list") es] w all w' ↔
          ∃ operands, host.ResolvesAll env es w operands w' ∧ all = operands.map fun ts =>
            [.application (.callable (.native (.primitive .list))) ts
              (Library.apply (.symbol "list") es)] := by
      rw [resolvesAll_single]
      simp only [resolves_function (Scopes.operator_bound standard.list) trivial]
      constructor
      · rintro ⟨_, ⟨operands, resolves, rfl⟩, rfl⟩
        exact ⟨operands, resolves, by cases operands <;> rfl⟩
      · rintro ⟨operands, resolves, rfl⟩
        exact ⟨_, ⟨operands, resolves, rfl⟩, by cases operands <;> rfl⟩
    have callee : host.Stands env (.symbol name) c [Library.apply (.symbol "list") es] w := by
      intro ts w₁ r w' all
      obtain ⟨operands, resolves, ended⟩ := list.mp all
      cases operands with
      | error f => cases ended
      | ok ts => exact symbol resolves
    rw [Way.expression, resolves_callee (Scopes.operator_bound standard.apply) callee]
    constructor
    · rintro ⟨_, all, rfl⟩
      obtain ⟨operands, resolves, rfl⟩ := list.mp all
      exact ⟨operands, resolves, by cases operands <;> rfl⟩
    · rintro ⟨operands, resolves, rfl⟩
      exact ⟨_, list.mpr ⟨operands, resolves, rfl⟩, by cases operands <;> rfl⟩

/-! ### Work lists -/

/-- A sequence of a bound symbol alone invokes nothing. -/
theorem invokes_progn {pending : List Value} (notNil : name ≠ "nil") (notTruth : name ≠ "t")
    (bound : w.scopes.get? env name = some (.callable c))
    (progn : w.scopes.get? env "progn" = some (.callable (.form .sequence))) :
    host.Invokes (.expressions env (Library.apply (.symbol "progn") [.symbol name] :: pending)) w log
      till ↔ host.Invokes (.expressions env pending) w log till := by
  have resolved := Scopes.operator_bound progn
  have inside : host.inside env (Library.apply (.symbol "progn") [.symbol name]) w =
      some (.expressions env [.symbol name], w) := by
    simp only [Host.inside, Library.apply, resolved]
    rfl
  have symbol : host.Resolves env (.symbol name) w (.ok (.value (.callable c))) w :=
    .symbol notNil notTruth bound
  obtain ⟨s, compiled, whole, -⟩ := symbol.places.compile
  have pieces : host.Pieces env (Library.apply (.symbol "progn") [.symbol name]) w
      (.ok (.splice (Stream.empty.merge s))) w :=
    .of_form resolved trivial (answers_compileBefore compiled fun _ => rfl)
  have further : Work.further env pending (.ok (.splice (Stream.empty.merge s))) =
      .expressions env pending := by
    rw [Work.further_splice, Stream.merge, whole]
    rfl
  rw [invokes_nested inside pieces, further]
  simp only [invokes_symbol notNil notTruth bound, invokes_nil]
  constructor
  · rintro (⟨rfl, rfl, -⟩ | ⟨_, more, rfl, ⟨rfl, -⟩, rest⟩)
    · exact .cut
    · exact rest
  · intro rest
    exact Or.inr ⟨[], log, rfl, ⟨rfl, fun _ same => (Option.some.inj same).symm⟩, rest⟩

/-- What is left to compile of a call is its operands, and then what stands for the callable. -/
theorem invokes_way (standard : w.scopes.Standard env) (function : c.IsFunction)
    (bound : w.scopes.get? env name = some (.callable c)) (way : Way) :
    host.Invokes (.expressions env [way.expression name es]) w log till ↔
      host.Invokes (.expressions env (es.reverse ++ way.front name)) w log till := by
  have native {n : Native} {operator e : Value}
      (resolved : w.scopes.operator env operator = .ok (.native n)) :
      host.Invokes (.expressions env [Library.apply operator (e :: es)]) w log till ↔
        host.Invokes (.expressions env (es.reverse ++ [e])) w log till := by
    rw [invokes_application resolved trivial, List.reverse_cons, List.append_nil]
  cases way with
  | plain => exact invokes_application (Scopes.operator_bound bound) function
  | computed =>
    have computes : (Library.apply (.symbol "progn") [.symbol name]).IsComputed := ⟨_, _, rfl⟩
    have operator : w.scopes.operator env Engine.callNative = .ok (.native (.primitive .call)) := rfl
    exact (invokes_computed computes).trans (native operator)
  | called => exact native (Scopes.operator_bound standard.call)
  | applied =>
    exact (invokes_application (Scopes.operator_bound standard.apply) trivial).trans
      (invokes_application (Scopes.operator_bound standard.list) trivial)

theorem invokes_front (notNil : name ≠ "nil") (notTruth : name ≠ "t")
    (bound : w.scopes.get? env name = some (.callable c))
    (progn : w.scopes.get? env "progn" = some (.callable (.form .sequence))) (way : Way) :
    host.Invokes (.expressions env (way.front name)) w log till ↔
      host.Invokes (.expressions env []) w log till := by
  cases way with
  | plain => exact Iff.rfl
  | computed => exact invokes_progn notNil notTruth bound progn
  | called | applied => exact invokes_symbol notNil notTruth bound

/-- While they are compiled, all ways of calling invoke the same. -/
theorem Sound.compiles_alike (sound : host.Sound) (standard : w.scopes.Standard env)
    (function : c.IsFunction) (notNil : name ≠ "nil") (notTruth : name ≠ "t")
    (bound : w.scopes.get? env name = some (.callable c)) (spares : host.Spares env name c es w)
    (a b : Way) (invokes : host.Invokes (.expressions env [a.expression name es]) w log till) :
    host.Invokes (.expressions env [b.expression name es]) w log till := by
  have exchanges : host.Exchanges env es.reverse (a.front name) (b.front name) w := by
    intro ts w₁ log till all front
    rw [List.reverse_reverse] at all
    obtain ⟨bound, progn⟩ := spares ts w₁ all
    exact (invokes_front notNil notTruth bound progn b).mpr
      ((invokes_front notNil notTruth bound progn a).mp front)
  rw [invokes_way standard function bound] at invokes ⊢
  exact invokes.exchange sound exchanges

/-! ### Runs -/

theorem nativeReply_list (args : List Value) (w : World σ) :
    host.nativeReply (.primitive .list) args w = (.ok (.answer (.value (.list args))), w) :=
  rfl

theorem nativeReply_apply (c : Callable) (args : List Value) (w : World σ) :
    host.nativeReply (.primitive .apply) [.callable c, .list args] w = (.ok (.invoke c args), w) :=
  rfl

section Alike

variable {a b : Way} {args trace trace' : List Value} {cap : BacktraceCap} {r : Except Error Value}

/-- Some natives are invoked, and then what a run invokes, unless it is cut off before. -/
def Leads (host : Host σ) (own : CallLog) (start : Advance) (w : World σ) (r : Except Error Value)
    (log : CallLog) (till : Option (World σ)) : Prop :=
  (till = Option.none ∧ log <+: own) ∨
    ∃ more, log = own ++ more ∧ host.Invokes (.running start (.done r)) w more till

theorem leads_nil {start : Advance} :
    host.Leads [] start w r log till ↔ host.Invokes (.running start (.done r)) w log till := by
  constructor
  · rintro (⟨rfl, own⟩ | ⟨more, rfl, run⟩)
    · rw [List.prefix_nil.mp own]
      exact .cut
    · exact run
  · exact fun run => Or.inr ⟨log, rfl, run⟩

theorem leads_cons {start : Advance} {first : Callable × List Value} {own : CallLog} :
    host.Leads (first :: own) start w r log till ↔ (log = [] ∧ till = Option.none) ∨
      ∃ more, log = first :: more ∧ host.Leads own start w r more till := by
  simp only [Leads, List.prefix_cons_iff, List.cons_append]
  constructor
  · rintro (⟨cut, rfl | ⟨more, rfl, own⟩⟩ | ⟨more, rfl, run⟩)
    · exact Or.inl ⟨rfl, cut⟩
    · exact Or.inr ⟨more, rfl, Or.inl ⟨cut, own⟩⟩
    · exact Or.inr ⟨own ++ more, rfl, Or.inr ⟨more, rfl, run⟩⟩
  · rintro (⟨rfl, cut⟩ | ⟨_, rfl, ⟨cut, own⟩ | ⟨more, rfl, run⟩⟩)
    · exact Or.inl ⟨cut, Or.inl rfl⟩
    · exact Or.inl ⟨cut, Or.inr ⟨_, rfl, own⟩⟩
    · exact Or.inr ⟨more, rfl, run⟩

/-- Once the operands are evaluated the natives of the way are invoked, and then the callable. -/
theorem invokes_remains (way : Way) :
    host.Invokes (.running (way.remains c name es args.length args.reverse trace cap) (.done r)) w log
        till ↔
      host.Leads (way.natives c args) (.pending (way.calls c name es args trace cap)) w r log till := by
  have called : (Value.callable c :: args).reverse ++ [] = args.reverse ++ [.callable c] := by
    rw [List.append_nil, List.reverse_cons]
  cases way with
  | plain => exact leads_nil.symm
  | computed | called =>
    simp only [Way.natives, leads_cons, leads_nil]
    refine Iff.trans ?_ (invokes_forwarding (nativeReply_call c args w))
    rw [called]
    exact Iff.rfl
  | applied =>
    simp only [Way.natives, leads_cons, leads_nil]
    refine (invokes_answering (nativeReply_list args w)).trans
      (or_congr Iff.rfl (exists_congr fun more => and_congr Iff.rfl ?_))
    exact invokes_forwarding (nativeReply_apply c args w)

/-- Once the operands are evaluated, two ways of calling go on alike. -/
theorem Sound.tails_alike (sound : host.Sound) {argc : Nat} {stack : List Value}
    (balanced : Balanced stack.length (Way.plain.tail c name es argc))
    (run : host.Invokes (.running (a.remains c name es argc stack trace cap) (.done r)) w log till) :
    host.Mirrors (Way.Agree c a b till.isSome) (b.remains c name es argc stack trace' cap) w r log
      till := by
  obtain ⟨enough, left⟩ := balanced
  obtain rfl : argc = stack.length := by
    have left : stack.length - argc + 1 = 1 := left
    omega
  obtain ⟨args, rfl⟩ : ∃ args : List Value, stack = args.reverse := ⟨_, stack.reverse_reverse.symm⟩
  rw [List.length_reverse] at run ⊢
  have before (cut : till = Option.none) (own : log <+: a.natives c args) :
      host.Mirrors (Way.Agree c a b till.isSome)
        (b.remains c name es args.length args.reverse trace' cap) w r log till := by
    have agree : Way.Agree c a b false ([] ++ log) [] := .between rfl own
    rw [cut]
    exact ⟨r, [], .cut, rfl, agree⟩
  obtain ⟨cut, own⟩ | ⟨more, rfl, calls⟩ := (invokes_remains a).mp run
  · exact before cut own
  obtain ⟨cut, rfl⟩ | ⟨after, rfl⟩ := invokes_call_first calls
  · exact before cut (List.append_nil _ ▸ List.prefix_refl _)
  obtain ⟨r', _, calls, same, rfl⟩ := sound.recalled calls
  have agree : Way.Agree c a b till.isSome ([] ++ a.natives c args ++ (c, args) :: after)
    ([] ++ b.natives c args ++ (c, args) :: after) := .behind
  exact ⟨r', _, (invokes_remains b).mpr (Or.inr ⟨_, rfl, calls⟩), same, agree⟩

/-- The frames of a call are those of its operands on top of what its way needs. -/
theorem invokes_start {s : Stream} {ts : List Resolved} {cap : BacktraceCap} (way : Way)
    (renders : s.Renders (.ok (way.tree c name es ts))) :
    host.Invokes (.running (.pending (.start s cap)) (.done r)) w log till ↔
      host.Invokes (.running (Machine.above
        ⟨way.tail c name es ts.length, way.held c, [], max cap 1⟩ (Resolved.allFrames ts) [] []).settle
          (.done r)) w log till := by
  have more {frames : List Frame} : frames ++ way.tail c name es ts.length ≠ [] := by
    refine List.append_ne_nil_of_right_ne_nil _ ?_
    cases way <;> exact List.cons_ne_nil _ _
  have settled : (Machine.above ⟨way.tail c name es ts.length, way.held c, [], max cap 1⟩
      (Resolved.allFrames ts) [] []).settle = _ := Machine.settle_pending more
  rw [Machine.start, renders.2, way.tree_frames, settled]
  cases way with
  | plain => exact Iff.rfl
  | computed | called | applied => rw [← settled]; exact invokes_value

/-- Two ways of calling run alike. -/
theorem Sound.runs_alike (sound : host.Sound) {s s' : Stream} {all : Except Fault (List Resolved)}
    (renders : s.Renders (all.map fun ts => a.tree c name es ts))
    (renders' : s'.Renders (all.map fun ts => b.tree c name es ts))
    (run : host.Invokes (.running (.pending (.start s cap)) (.done r)) w log till) :
    host.Mirrors (Way.Agree c a b till.isSome) (.pending (.start s' cap)) w r log till := by
  cases all with
  | error f =>
    obtain ⟨-, e, rest, failing, cause⟩ := renders
    obtain ⟨-, e', rest', failing', cause'⟩ := renders'
    rw [Machine.start, failing] at run
    rw [Machine.start, failing']
    refine .plainStep rfl (steps_error.mpr ⟨rfl, rfl⟩) (.done .same (invokes_error.mp run) ?_)
    exact congrArg Except.error (cause'.trans cause.symm)
  | ok ts =>
    have fit : Frame.Fit ([] : List Value).length (Resolved.allFrames ts)
        (Way.plain.tail c name es ts.length) :=
      Or.inr (Resolved.allBalanced_append ts
        ⟨Nat.le_add_left .., congrArg (· + 1) (Nat.add_sub_cancel ..)⟩)
    obtain ⟨r', log', run, same, agree⟩ := sound.lockstep .same Way.Agree.prepend sound.tails_alike fit
      ((invokes_start a renders).mp run)
    exact ⟨r', log', (invokes_start b renders').mpr run, same, agree⟩

section Evaluations

variable (sound : host.Sound) (standard : w.scopes.Standard env) (function : c.IsFunction)
variable (notNil : name ≠ Symbol.nilName) (notTruth : name ≠ Symbol.truthName)
variable (bound : w.scopes.get? env name = some (.callable c)) (spares : host.Spares env name c es w)
include sound standard function notNil notTruth bound spares

/-- An evaluation of a call of one way is an evaluation of the call of another one. -/
theorem Sound.evaluates_alike {cap : BacktraceCap}
    (invokes : host.Invokes (.evaluating env (a.expression name es) cap) w log till) (b : Way) :
    ∃ log', host.Invokes (.evaluating env (b.expression name es) cap) w log' till ∧
      Way.Agree c a b till.isSome log log' ∧ ∀ w' ∈ till, ∃ f,
        host.EndsWith env (a.expression name es) cap w f w' ∧
        host.EndsWith env (b.expression name es) cap w f w' := by
  cases invokes with
  | cut => exact ⟨[], .cut, .same, nofun⟩
  | compiling first =>
    refine ⟨log, .compiling ?_, .same, nofun⟩
    exact sound.compiles_alike standard function notNil notTruth bound spares a b first
  | @evaluating _ _ _ s r first later _ w₁ _ compiling compiled run =>
    obtain ⟨fuel, compiles⟩ := compiled
    obtain ⟨tree, resolves, renders⟩ := (sound.faithful fuel).compile sound compiles
    have trees (way : Way) {r : Except Fault Resolved} :
        host.Resolves env (way.expression name es) w r w₁ ↔ ∃ all,
          host.ResolvesAll env es w all w₁ ∧ r = all.map fun ts => way.tree c name es ts :=
      resolves_way standard function notNil notTruth bound spares way
    obtain ⟨all, operands, rfl⟩ := (trees a).mp resolves
    obtain ⟨s', compiled', renders'⟩ := ((trees b).mpr ⟨all, operands, rfl⟩).places.compile
    obtain ⟨r', later', run', same, agree⟩ := sound.runs_alike renders renders' run
    refine ⟨first ++ later', .evaluating ?_ compiled' run', agree.prepend first, ?_⟩
    · exact sound.compiles_alike standard function notNil notTruth bound spares a b compiling
    rintro w' rfl
    refine ⟨_, ⟨r, ?_, rfl⟩, ⟨r', ?_, same⟩⟩
    · exact evaluateOnce_iff.mpr ⟨s, w₁, ⟨fuel, compiles⟩, run.ends⟩
    · exact evaluateOnce_iff.mpr ⟨s', w₁, compiled', run'.ends⟩

/-- The ways of calling agree. Calls that are written differently end with the same value, or fail in
the same way, or do not end. What a call invokes until it ends is determined; and as far as they come,
calls that are written differently invoke the same, up to the natives that their ways invoke before the
callable. -/
theorem Sound.ways_of_calling_agree (cap : BacktraceCap) (a b : Way) :
    (∀ r w', host.EndsWith env (a.expression name es) cap w r w' ↔
      host.EndsWith env (b.expression name es) cap w r w') ∧
    (∀ r w', host.EndsWith env (a.expression name es) cap w r w' →
      ∃ log, host.Invokes (.evaluating env (a.expression name es) cap) w log (some w') ∧
        ∀ log' till, host.Invokes (.evaluating env (a.expression name es) cap) w log' till →
          Part log w' log' till) ∧
    ∀ log till, host.Invokes (.evaluating env (a.expression name es) cap) w log till →
      ∃ log', host.Invokes (.evaluating env (b.expression name es) cap) w log' till ∧
        Way.Agree c a b till.isSome log log' := by
  have alike {a b : Way} {r : Except Fault Value} {w' : World σ}
      (ends : host.EndsWith env (a.expression name es) cap w r w') :
      host.EndsWith env (b.expression name es) cap w r w' := by
    obtain ⟨r', answers, rfl⟩ := ends
    obtain ⟨log, invokes⟩ := invokes_of_evaluateOnce answers
    obtain ⟨-, -, -, both⟩ :=
      sound.evaluates_alike standard function notNil notTruth bound spares invokes b
    obtain ⟨-, ⟨_, again, rfl⟩, other⟩ := both w' rfl
    obtain ⟨rfl, -⟩ := answers.unique (fun below => below.evaluateOnce ..) again
    exact other
  refine ⟨fun r w' => ⟨alike, alike⟩, ?_, fun log till invokes => ?_⟩
  · rintro r w' ⟨r', answers, rfl⟩
    obtain ⟨log, invokes⟩ := invokes_of_evaluateOnce answers
    exact ⟨log, invokes, fun log' till other => invokes.determined rfl trivial other⟩
  · obtain ⟨log', other, agree, -⟩ :=
      sound.evaluates_alike standard function notNil notTruth bound spares invokes b
    exact ⟨log', other, agree⟩

end Evaluations

end Alike

end Host

namespace Extension

/-- An interpreter of the standard library with a native that answers with all its arguments, and a form
that binds names where it is compiled. -/
def shifting : Interpreter × World Log :=
  Interpreter.build ⟨{}, 0, []⟩ Library.table (Table.ofEntries
    [("spread", .callable (.native (.host "spread"))), ("bind!", .form (.host "bind!"))]) {}

/-- A scope of it, in which a name is bound to a native. -/
def shifted : Environment × World Log :=
  shifting.2.openChild shifting.1.root
    (Table.ofEntries [("f", .callable (.native (.primitive .list)))])

end Extension

open Extension in
/-- The native that calls is called in all ways, with a function of the library and its argument. -/
theorem Host.ways_of_calling_agree_calling :
    (Host.none Log).Sound ∧ fresh.2.scopes.Standard fresh.1.root ∧
    fresh.2.scopes.get? fresh.1.root "call" = some (.callable (.native (.primitive .call))) ∧
    (Host.none Log).Spares fresh.1.root "call" (.native (.primitive .call)) [.symbol "list", .truth]
      fresh.2 ∧
    ∃ w, (∀ way : Way, (Host.none Log).EndsWith fresh.1.root
        (way.expression "call" [.symbol "list", .truth]) 10 fresh.2 (.ok (.list [.truth])) w) ∧
      ∃ log, ∀ way : Way, ∃ log', (Host.none Log).Invokes (.evaluating fresh.1.root
          (way.expression "call" [.symbol "list", .truth]) 10) fresh.2 log' (some w) ∧
        Way.Agree (.native (.primitive .call)) .plain way true log log' := by
  have session := fresh_sound
  have standard : fresh.2.scopes.Standard fresh.1.root := ⟨rfl, rfl, rfl, rfl⟩
  have bound : fresh.2.scopes.get? fresh.1.root "call" =
      some (.callable (.native (.primitive .call))) := rfl
  have held : ∀ e ∈ [Value.symbol "list", .truth], e.Held freshRoots fresh.2.scopes :=
    List.forall_mem_cons.mpr ⟨.symbol _, List.forall_mem_singleton.mpr .truth⟩
  have spares := none_writes.spares session.world session.root held bound standard.progn
  have function : Callable.IsFunction (.native (.primitive .call)) := trivial
  have agree (way : Way) := Host.Sound.ways_of_calling_agree none_sound standard function (by decide)
    (by decide) bound spares 10 .plain way
  obtain ⟨w, ends⟩ : ∃ w, (Host.none Log).EndsWith fresh.1.root
      (Way.plain.expression "call" [.symbol "list", .truth]) 10 fresh.2 (.ok (.list [.truth])) w :=
    ⟨_, _, ⟨20, rfl⟩, rfl⟩
  obtain ⟨log, invokes, -⟩ := (agree .plain).2.1 _ _ ends
  exact ⟨none_sound, standard, bound, spares, w, fun way => ((agree way).1 _ _).mp ends, log,
    fun way => (agree way).2.2 log _ invokes⟩

open Extension in
/-- Operands that answer with more than one value, or that bind the name anew while they are compiled,
tell the ways of calling apart. -/
theorem Host.shifted_calls_disagree :
    shifted.2.scopes.Standard shifted.1 ∧
    shifted.2.scopes.get? shifted.1 "f" = some (.callable (.native (.primitive .list))) ∧
    (∃ f f' w w',
      Extension.host.EndsWith shifted.1
        (Way.plain.expression "f" [Library.apply (.symbol "spread") [.truth, .nil]]) 10 shifted.2
        (.error f) w ∧
      Extension.host.EndsWith shifted.1
        (Way.called.expression "f" [Library.apply (.symbol "spread") [.truth, .nil]]) 10 shifted.2
        (.error f') w' ∧
      f.kind = .internal ∧ f'.kind = .illegalCall) ∧
    ∃ f w w',
      Extension.host.EndsWith shifted.1
        (Way.plain.expression "f" [Library.apply (.symbol "bind!") [.symbol "f", .symbol "+"]]) 10
        shifted.2 (.ok (.list [.truth])) w ∧
      Extension.host.EndsWith shifted.1
        (Way.called.expression "f" [Library.apply (.symbol "bind!") [.symbol "f", .symbol "+"]]) 10
        shifted.2 (.error f) w' ∧
      f.kind = .illegalCall := by
  refine ⟨⟨rfl, rfl, rfl, rfl⟩, rfl, ?_, ?_⟩
  · exact ⟨_, _, _, _, ⟨_, ⟨20, rfl⟩, rfl⟩, ⟨_, ⟨20, rfl⟩, rfl⟩, rfl, rfl⟩
  · exact ⟨_, _, _, ⟨_, ⟨20, rfl⟩, rfl⟩, ⟨_, ⟨20, rfl⟩, rfl⟩, rfl⟩

end CooperativeLisp

import CooperativeLisp.Proofs.Isolation
import CooperativeLisp.Proofs.Printing
import CooperativeLisp.Proofs.TwinWorlds

/-!
Engines at work in two worlds that are twins. What is compiled there mentions none of the extra names,
so both engines take the same steps: main statements, from one frame to whole evaluations, are that
both come to an end or neither does, with values that are twins or failures that are, and with worlds
that are twins again.
-/

namespace CooperativeLisp

open List (Forall₂)

variable {σ : Type} {τ : Twinning} {w : World σ} {env : Environment}

/-- An expression over the standard library with its declaring form: it holds no closure and no
callable of a host. -/
def Value.Standard (e : Value) : Prop :=
  e.Portable fun c => ∃ cap, c = .form (.exports cap)

namespace Twinning

/-! ### Compilation -/

variable {g : Engine σ} {operands : List Value}

/-- An engine that evaluates plain expressions at the root in lockstep with itself. -/
structure Serves (τ : Twinning) (g : Engine σ) : Prop where
  evaluate : ∀ {w e cap cap'}, τ.caps cap cap' → τ.Plain e →
    τ.Matches w (τ.Both τ.Values) (g.evaluate ⟨τ.root, []⟩ e cap) (g.evaluate ⟨τ.root, []⟩ e cap')

/-- A compiler that compiles in lockstep with itself. -/
def Compiles (τ : Twinning) (compile : Environment → Value → Effect σ Stream) : Prop :=
  ∀ {w env e}, env.Within τ.root → τ.Code w env e →
    τ.Matches w (Stream.Twin τ) (compile env e) (compile env e)

theorem lookup_matches {name : String} (within : env.Within τ.root) (sees : τ.Sees w env name) :
    τ.Matches w (τ.Both τ.Values) (Engine.lookup env name : Attempt σ Value).run
      (Engine.lookup env name : Attempt σ Value).run := by
  refine ⟨fun {w'} worlds => .some ⟨.refl w, worlds, ?_⟩⟩
  have found := worlds.get? within sees
  show τ.Ends (Value.Twin τ) (w.scopes.lookup env name) (w'.scopes.lookup env name)
  unfold Scopes.lookup
  revert found
  generalize w.scopes.get? env name = left
  generalize w'.scopes.get? env name = right
  intro found
  cases found with
  | none => exact .same _
  | some twin => exact .ok twin

/-- The callable of an operator, if symbols in its place are seen and callables are known. -/
theorem resolveOperator_matches {operator : Value} (within : env.Within τ.root)
    (sees : ∀ {name}, operator = .symbol name → τ.Sees w env name)
    (known : ∀ {c}, operator = .callable c → c.Twin τ c) :
    τ.Matches w (τ.Both τ.Callables) (Engine.resolveOperator env operator : Attempt σ Callable).run
      (Engine.resolveOperator env operator : Attempt σ Callable).run := by
  cases operator with
  | symbol name =>
    refine (lookup_matches within (sees rfl)).attempt fun _ bound => ?_
    cases bound with
    | callable twin => exact .ok twin
    | _ => exact .fail _
  | callable c => exact .ok (known rfl)
  | _ => exact .fail _

theorem expand_matches {x : Expander} (core : Callable.IsCore (.expander x))
    (plain : ∀ e ∈ operands, τ.Plain e) :
    τ.Matches w (τ.Both fun _ e e' => e = e' ∧ τ.Plain e) (g.expand x operands env).run
      (g.expand x operands env).run := by
  refine Matches.attempt (R := fun _ _ _ => True) (.check fun _ => trivial) fun _ _ => ?_
  cases replaced : x.expand? operands with
  | none =>
    obtain ⟨name, rfl⟩ := Expander.expand?_eq_none replaced
    exact core.elim
  | some r =>
    refine .check fun {e} made => ⟨rfl, ?_⟩
    subst made
    exact plain_expand plain replaced

theorem makeClosure_matches {params : Value} {body : List Value}
    (owns : ∀ {i c}, Closure.make i params (Engine.bodyOf body) env = .ok c → τ.Owns c) :
    τ.Matches w (τ.Both τ.Values) (Engine.makeClosure env params body : Attempt σ Value).run
      (Engine.makeClosure env params body : Attempt σ Value).run := by
  refine Matches.attempt (R := fun _ c d => c = d ∧ τ.Owns c) ⟨fun {w'} worlds => ?_⟩ ?_
  · refine .some ⟨⟨fun _ => id⟩, worlds.makeClosure, ?_⟩
    show τ.Ends _ (Closure.make w.closures params (Engine.bodyOf body) env)
      (Closure.make w'.closures params (Engine.bodyOf body) env)
    rw [← worlds.closures]
    cases made : Closure.make w.closures params (Engine.bodyOf body) env with
    | error e => exact .error ⟨.refl _, rfl⟩
    | ok c => exact .ok ⟨rfl, owns made⟩
  · rintro w₁ c _ _ ⟨rfl, owns⟩
    exact .ok (.callable (.closure owns))

/-- Declarations find the same names bound, and bind them to twins. -/
theorem Serves.declare_matches (serves : τ.Serves g) {cap cap' : BacktraceCap}
    (caps : τ.caps cap cap') {bindings : List Binding} (binds : ∀ b ∈ bindings, τ.Binds b) :
    τ.Matches w (τ.Both τ.Values) (g.declare ⟨τ.root, []⟩ cap bindings).run
      (g.declare ⟨τ.root, []⟩ cap' bindings).run := by
  induction bindings generalizing w with
  | nil => exact .ok .truth
  | cons b bindings ih =>
    obtain ⟨here, more⟩ := List.forall_mem_cons.mp binds
    unfold Engine.declare
    refine Matches.attempt (R := fun _ name name' => name = name' ∧ name ∉ τ.extras)
      (.check fun {name} declared => ⟨rfl, ?_⟩) ?_
    · have plain := here.name
      revert declared
      generalize b.name = named at plain
      intro declared
      cases plain with
      | symbol free =>
        cases declared
        exact free
      | _ => cases declared
    rintro w₁ name _ - ⟨rfl, free⟩
    refine Matches.attempt (R := fun w scopes scopes' =>
      scopes.binds ⟨τ.root, []⟩ name = scopes'.binds ⟨τ.root, []⟩ name) ⟨fun worlds => ?_⟩ ?_
    · exact .some ⟨.refl w₁, worlds, .ok (worlds.binds free)⟩
    intro w₂ scopes scopes' _ same
    rw [same]
    split
    · exact .fail _
    refine Matches.attempt (serves.evaluate caps here.init) fun {w₃ v v'} _ twin => ?_
    refine Matches.attempt (R := fun _ _ _ => True) ⟨fun worlds => ?_⟩ fun _ _ => ih more
    exact .some (worlds.bind free twin)

/-! ### Forms -/

theorem choice_twin {t e : Value} (within : env.Within τ.root) (consequent : τ.Code w env t)
    (alternative : τ.Code w env e) (operands : List Value) :
    (Engine.choice env t e operands).Twin τ w (Engine.choice env t e operands) :=
  Stream.Twin.empty.pushCall (.branch within consequent alternative) 1 _

theorem sequels_twin {first : Value} {rest : List Value} (within : env.Within τ.root)
    (code : ∀ e ∈ rest, τ.Code w env e) :
    (Engine.sequels env first rest).Twin τ w (Engine.sequels env first rest) := by
  have same : Forall₂ (fun e e' => e = e' ∧ τ.Code w env e) rest.reverse rest.reverse :=
    List.forall₂_same.mpr fun e member => ⟨rfl, code e (List.mem_reverse.mp member)⟩
  refine List.rel_foldl (P := Stream.Twin τ w) ?_ Stream.Twin.empty same
  rintro _ _ waiting next _ ⟨rfl, code⟩
  exact waiting.pushCall (.sequel within code) 1 _

theorem Compiles.before {compile : Environment → Value → Effect σ Stream}
    (compiles : τ.Compiles compile) (within : env.Within τ.root) {e : Value}
    (code : τ.Code w env e) {s s' : Stream} (waiting : s.Twin τ w s') :
    τ.Matches w (τ.Both (Outcome.Twin τ))
      (do return .stream (← Engine.compileBefore compile env e s) : Attempt σ Outcome).run
      (do return .stream (← Engine.compileBefore compile env e s') : Attempt σ Outcome).run := by
  rw [Engine.formAnswer_compileBefore, Engine.formAnswer_compileBefore]
  refine (compiles within code).bind fun later compiled => ?_
  exact .pure (.ok (.stream ((waiting.later later).merge compiled)))

/-- The closure of plain operands has a plain body; the closure of the library's own operands has
the parameters that its body names. -/
theorem owns_of_fits {params : Value} {body : List Value} (within : env.Within τ.root)
    (fits : τ.Fits w env (.form .lambda) (params :: body)) {i : Nat} {c : Closure}
    (made : Closure.make i params (Engine.bodyOf body) env = .ok c) : τ.Owns c := by
  unfold Closure.make at made
  cases fits with
  | plain plain =>
    split at made
    · cases made
      exact ⟨within, Or.inl (.bodyOf (List.forall_mem_cons.mp plain).2)⟩
    · cases made
  | chooser =>
    have read : LambdaList.read (.list [Library.self, .symbol "v", .symbol "k"]) =
        .ok ⟨[Symbol.selfName, "v", "k"], .ignored⟩ := rfl
    rw [read] at made
    cases made
    exact ⟨within, Or.inr ⟨rfl, rfl⟩⟩

theorem Serves.formAnswer_matches (serves : τ.Serves g)
    {compile : Environment → Value → Effect σ Stream} (compiles : τ.Compiles compile) {f f' : Form}
    (same : Callable.Twin τ (.form f) (.form f')) (fits : τ.Fits w env (.form f) operands)
    (within : env.Within τ.root) :
    τ.Matches w (τ.Both (Outcome.Twin τ)) (g.formAnswer compile f operands env).run
      (g.formAnswer compile f' operands env).run := by
  cases same with
  | @exports cap cap' caps =>
    have plain := fits.all_plain nofun nofun
    have listed : τ.Plain (operands.headD .nil) := by
      cases operands with
      | nil => exact .nil
      | cons list _ => exact plain list List.mem_cons_self
    rw [Engine.formAnswer, Engine.formAnswer, within.root_eq]
    refine Matches.attempt (R := fun _ bindings bindings' =>
      bindings = bindings' ∧ ∀ b ∈ bindings, τ.Binds b) (.check fun {bindings} read => ?_) ?_
    · exact ⟨rfl, binds_of_readAll listed read⟩
    rintro w₁ bindings _ _ ⟨rfl, binds⟩
    exact Matches.attempt (serves.declare_matches caps binds) fun _ twin => .ok (.value twin)
  | core core =>
    cases f with
    | host name => exact core.elim
    | exports cap => exact core.elim
    | quote =>
      have plain := fits.all_plain nofun nofun
      cases operands with
      | nil => exact .ok (.value .nil)
      | cons e _ => exact .ok (.value (plain e List.mem_cons_self).twin)
    | lambda =>
      cases operands with
      | nil => exact .fail _
      | cons params body =>
        exact Matches.attempt (makeClosure_matches (owns_of_fits within fits))
          fun _ made => .ok (.value made)
    | conditional =>
      have code := fits.code nofun
      match operands, code with
      | [], _ => exact .fail _
      | [_], _ => exact .fail _
      | [c, t], code =>
        obtain ⟨condition, code⟩ := List.forall_mem_cons.mp code
        have consequent := code t List.mem_cons_self
        exact compiles.before within condition (choice_twin within consequent (.plain .nil) _)
      | [c, t, e], code =>
        obtain ⟨condition, code⟩ := List.forall_mem_cons.mp code
        have consequent := code t List.mem_cons_self
        have alternative := code e (.tail _ List.mem_cons_self)
        exact compiles.before within condition (choice_twin within consequent alternative _)
      | _ :: _ :: _ :: _ :: _, _ => exact .fail _
    | sequence =>
      have code := fits.code nofun
      cases operands with
      | nil => exact .ok (.value .nil)
      | cons first rest =>
        obtain ⟨first, rest⟩ := List.forall_mem_cons.mp code
        exact compiles.before within first (sequels_twin within rest)

/-! ### Expressions -/

theorem Serves.compileApplication_matches (serves : τ.Serves g)
    {compile : Environment → Value → Effect σ Stream} (compiles : τ.Compiles compile)
    {c d : Callable} (twin : c.Twin τ d) (fits : τ.Fits w env c operands)
    (within : env.Within τ.root) :
    τ.Matches w (τ.Both fun w => Piece.Twin τ w env)
      (g.compileApplication compile env operands c).run
      (g.compileApplication compile env operands d).run := by
  have application : c.IsFunction → d.IsFunction → τ.Matches w (τ.Both fun w => Piece.Twin τ w env)
      (Pure.pure (.application c operands) : Attempt σ Piece).run
      (Pure.pure (.application d operands) : Attempt σ Piece).run := fun function _ =>
    .ok (.application twin (fits.code (by rintro rfl; exact function.elim)))
  have form : ∀ {f f' : Form}, Callable.Twin τ (.form f) (.form f') → f.arity = f'.arity →
      τ.Fits w env (.form f) operands → τ.Matches w (τ.Both fun w => Piece.Twin τ w env)
        (g.compileApplication compile env operands (.form f)).run
        (g.compileApplication compile env operands (.form f')).run := by
    intro f f' same arity fits
    rw [Engine.compileApplication_form, Engine.compileApplication_form]
    unfold Engine.applyForm
    rw [← arity]
    refine Matches.bind (Matches.attempt (R := fun _ _ _ => True) (S := Outcome.Twin τ)
      (.check fun _ => trivial) fun later _ =>
        serves.formAnswer_matches compiles same (fits.later later) within) fun _ ended => ?_
    cases ended with
    | error e => exact .pure (.error e)
    | ok outcome =>
      cases outcome with
      | value same => exact .pure (.ok (.value same))
      | stream same => exact .pure (.ok (.splice same))
  cases twin with
  | closure owns => exact application trivial trivial
  | exports caps => exact form (.exports caps) rfl fits
  | core core =>
    cases c with
    | native n => exact application trivial trivial
    | closure c => exact core.elim
    | form f => exact form (.core core) rfl fits
    | expander x =>
      refine Matches.attempt (expand_matches core (fits.all_plain nofun nofun)) ?_
      rintro w₁ e _ _ ⟨rfl, plain⟩
      exact .ok (.instead (.plain plain))

theorem Serves.compileOne_matches (serves : τ.Serves g)
    {compile : Environment → Value → Effect σ Stream} (compiles : τ.Compiles compile) {e : Value}
    (code : τ.Code w env e) (within : env.Within τ.root) :
    τ.Matches w (τ.Both fun w => Piece.Twin τ w env) (g.compileOne compile env e).run
      (g.compileOne compile env e).run := by
  have symbol : ∀ {name}, τ.Sees w env name →
      τ.Matches w (τ.Both fun w => Piece.Twin τ w env) (g.compileOne compile env (.symbol name)).run
        (g.compileOne compile env (.symbol name)).run := by
    intro name sees
    unfold Engine.compileOne
    dsimp only
    split
    · exact .ok (.value .nil)
    split
    · exact .ok (.value .truth)
    · exact Matches.attempt (lookup_matches within sees) fun _ twin => .ok (.value twin)
  cases code with
  | operand chooses => exact symbol (Or.inr ⟨chooses.1, chooses.2 "v" (by simp)⟩)
  | test chooses =>
    have form : Callable.Twin τ (.form .conditional) (.form .conditional) := .core trivial
    exact serves.compileApplication_matches compiles form (.test chooses) within
  | rest chooses =>
    have sees : τ.Sees w env "k" := Or.inr ⟨chooses.1, chooses.2 "k" (by simp)⟩
    have fits : ∀ {w : World σ} {c : Callable}, τ.Fits w env c [Library.self] :=
      .plain (List.forall_mem_singleton.mpr .self)
    refine Matches.attempt (resolveOperator_matches within ?_ nofun) fun _ same =>
      serves.compileApplication_matches compiles same fits within
    rintro name ⟨⟩
    exact sees
  | plain plain =>
    have itself := plain
    cases plain with
    | symbol free => exact symbol (Or.inl free)
    | chooser =>
      have form : Callable.Twin τ (.form .lambda) (.form .lambda) := .core trivial
      exact serves.compileApplication_matches compiles form .chooser within
    | @list es all =>
      match es, all with
      | [], _ => exact .ok (.value .nil)
      | operator :: operands, all =>
        by_cases computed : operator.IsComputed
        · obtain ⟨first, rest, rfl⟩ := computed
          exact .ok (.instead (.plain (.apply (.callable trivial) all)))
        obtain ⟨first, rest⟩ := List.forall_mem_cons.mp all
        show τ.Matches w _ (g.compileOne compile env (Library.apply operator operands)).run
          (g.compileOne compile env (Library.apply operator operands)).run
        rw [Engine.compileOne_plain computed]
        refine Matches.attempt (resolveOperator_matches within ?_ ?_) fun _ same =>
          serves.compileApplication_matches compiles same (.plain rest) within
        · rintro name rfl
          cases first with
          | symbol free => exact Or.inl free
        · rintro c rfl
          cases first with
          | callable core => exact .core core
          | exports cap => exact .exports (τ.caps_refl cap)
    | _ => exact .ok (.value itself.twin)

theorem Serves.compileOnto_matches (serves : τ.Serves g) (rounds : Nat) {pending : List Value}
    {s s' : Stream} (within : env.Within τ.root) (code : ∀ e ∈ pending, τ.Code w env e)
    (stream : s.Twin τ w s') :
    τ.Matches w (Stream.Twin τ) (g.compileOnto rounds env pending s)
      (g.compileOnto rounds env pending s') := by
  induction rounds generalizing w env pending s s' with
  | zero => exact .exhausted
  | succ rounds ih =>
    cases pending with
    | nil => exact .pure stream
    | cons e pending =>
      have compiles : τ.Compiles fun env e => g.compileOnto rounds env [e] .empty :=
        fun within code => ih within (List.forall_mem_singleton.mpr code) .empty
      obtain ⟨first, more⟩ := List.forall_mem_cons.mp code
      rw [Engine.compileOnto_succ, Engine.compileOnto_succ]
      refine (serves.compileOne_matches compiles first within).bind fun {w₁ _ _} later piece => ?_
      have more := fun e member => (more e member).later later
      have stream := stream.later later
      cases piece with
      | error twin => exact .pure (stream.pushError (twin.withOrigin e))
      | ok piece =>
        cases piece with
        | value same => exact ih within more (stream.pushValue same)
        | splice extra =>
          unfold Engine.placed
          dsimp only
          rw [extra.failed]
          split
          · exact .pure (stream.merge extra)
          · exact ih within more (stream.merge extra)
        | instead code => exact ih within (List.forall_mem_cons.mpr ⟨code, more⟩) stream
        | application twin operands =>
          refine ih within (fun e member => ?_) (stream.pushCall (.callable twin) _ e)
          rcases List.mem_append.mp member with operand | waiting
          · exact operands e (List.mem_reverse.mp operand)
          · exact more e waiting

theorem Serves.compile_matches (serves : τ.Serves g) : τ.Compiles g.compile :=
  fun within code =>
    serves.compileOnto_matches _ within (List.forall_mem_singleton.mpr code) .empty

/-! ### Invocations and runs -/

/-- The body of a closure may be compiled in the scope of its invocation. -/
theorem Owns.code {c : Closure} (owns : τ.Owns c) (args : List Value)
    (rooted : τ.root < w.scopes.tables.size) :
    τ.Code (w.enter c args).2 (w.enter c args).1 c.body := by
  rcases owns.body with plain | ⟨params, test⟩
  · exact .plain plain
  · rw [test]
    refine .test ⟨rooted, fun name member => ?_⟩
    rw [show (w.enter c args).1.scope = w.scopes.tables.size from rfl, w.enter_new]
    exact c.arguments_bound args (params ▸ .tail _ member)

theorem reply_matches {c d : Callable} {args args' : List Value} (twin : c.Twin τ d)
    (all : Forall₂ (Value.Twin τ) args args') :
    τ.Matches w (τ.Both (Reply.Twin τ)) (g.reply c args).run (g.reply d args').run := by
  cases twin with
  | exports caps => exact .fail _
  | closure owns =>
    rename_i c
    refine ⟨fun {w'} worlds => .some ⟨.enter w c args, worlds.enter owns all, ?_⟩⟩
    have inner : τ.root < w.scopes.tables.size := worlds.rooted
    have handle : (w'.enter c args').1 = (w.enter c args).1 := by
      unfold World.enter
      rw [worlds.opened]
    show τ.Ends (Reply.Twin τ (w.enter c args).2) (.ok (.answer (.compile (w.enter c args).1 c.body)))
      (.ok (.answer (.compile (w'.enter c args').1 c.body)))
    rw [handle]
    exact .ok (.compile (owns.within.enter inner) (owns.code args inner))
  | core core =>
    cases c with
    | closure c => exact core.elim
    | form f => exact .fail _
    | expander x => exact .fail _
    | native n =>
      cases n with
      | host name => exact core.elim
      | primitive p =>
        refine .ofExcept ?_
        have replied := τ.observed.run p all
        revert replied
        generalize p.run args = left
        generalize p.run args' = right
        intro replied
        cases replied with
        | fails related => exact .error (.ofFault related)
        | ok related =>
          cases related with
          | value same => exact .ok (.value same)
          | invoke callee all => exact .ok (.invoke callee all)

theorem Serves.invokeWithin_matches (serves : τ.Serves g) (rounds : Nat) {c d : Callable}
    {args args' : List Value} (twin : c.Twin τ d) (all : Forall₂ (Value.Twin τ) args args') :
    τ.Matches w (τ.Both (Outcome.Twin τ)) (g.invokeWithin rounds c args).run
      (g.invokeWithin rounds d args').run := by
  induction rounds generalizing w c d args args' with
  | zero => exact .exhausted
  | succ rounds ih =>
    rw [Engine.invokeWithin_succ, Engine.invokeWithin_succ]
    refine (reply_matches twin all).bind fun _ reply => ?_
    cases reply with
    | error e => exact .pure (.error e)
    | ok reply =>
      cases reply with
      | value same => exact .pure (.ok (.value same))
      | invoke twin all => exact ih twin all
      | compile within code =>
        exact (serves.compile_matches within code).bind fun _ compiled =>
          .pure (.ok (.stream compiled))

theorem Serves.perform_matches (serves : τ.Serves g) {o o' : Operation}
    {args args' : List Value} (operation : o.Twin τ w o')
    (all : Forall₂ (Value.Twin τ) args args') :
    τ.Matches w (τ.Both (Outcome.Twin τ)) (g.perform o args).run (g.perform o' args').run := by
  have compiled : ∀ {env e}, env.Within τ.root → τ.Code w env e →
      τ.Matches w (τ.Both (Outcome.Twin τ))
        (do return .stream (← g.compile env e) : Attempt σ Outcome).run
        (do return .stream (← g.compile env e) : Attempt σ Outcome).run :=
    fun within code => Matches.attempt (Matches.lift (serves.compile_matches within code))
      fun _ same => .ok (.stream same)
  cases operation with
  | callable twin => exact serves.invokeWithin_matches _ twin all
  | branch within consequent alternative =>
    have condition : args.head?.any Value.isTrue = args'.head?.any Value.isTrue := by
      cases all with
      | nil => rfl
      | cons first _ => exact first.isTrue
    unfold Engine.perform
    dsimp only
    rw [condition]
    split
    · exact compiled within consequent
    · exact compiled within alternative
  | sequel within next => exact compiled within next

/-- A frame leads to points of the two runs that are twins again. -/
theorem Serves.step_matches (serves : τ.Serves g) {m m' : Machine} (machine : m.Twin τ w m') :
    τ.Matches w (Advance.Twin τ) (g.step m) (g.step m') := by
  obtain ⟨frames, stack, trace, cap⟩ := m
  obtain ⟨frames', stack', trace', cap'⟩ := m'
  have front := machine.frames
  have values := machine.stack
  cases front with
  | nil => exact .pure (.done machine.finish)
  | @cons frame frame' frames frames' first rest =>
    cases first with
    | value same =>
      exact .pure (Machine.Twin.settle ⟨rest, .cons same values, machine.trace, machine.cap⟩)
    | error same => exact .pure (machine.fail same)
    | @call o o' argc origin operation =>
      have args := List.forall₂_take argc values
      unfold Engine.step
      dsimp only
      rw [args.length_eq]
      split
      · exact .pure (machine.fail (.ofFault (.refl _)))
      · refine (serves.perform_matches operation (List.rel_reverse args)).bind fun later ended => ?_
        exact .pure (((machine.enter rest argc origin).later later).answered ended)

theorem Serves.finishWithin_matches (serves : τ.Serves g) (rounds : Nat) {m m' : Machine}
    (machine : m.Twin τ w m') :
    τ.Matches w (τ.Both τ.Values) (g.finishWithin rounds m) (g.finishWithin rounds m') := by
  induction rounds generalizing w m m' with
  | zero => exact .exhausted
  | succ rounds ih =>
    refine (serves.step_matches machine).bind fun _ advance => ?_
    cases advance with
    | pending machine => exact ih machine
    | done ended => exact .pure ended

theorem Serves.evaluateOnce_matches (serves : τ.Serves g) {e : Value} {cap cap' : BacktraceCap}
    (within : env.Within τ.root) (code : τ.Code w env e) (caps : τ.caps cap cap') :
    τ.Matches w (τ.Both τ.Values) (g.evaluateOnce env e cap) (g.evaluateOnce env e cap') :=
  (serves.compile_matches within code).bind fun _ stream =>
    serves.finishWithin_matches _ (.start stream caps)

/-- Whatever its fuel, an engine evaluates plain expressions in lockstep with itself. -/
theorem serves (τ : Twinning) (host : Host σ) (fuel : Nat) : τ.Serves (.withFuel host fuel) := by
  induction fuel with
  | zero => exact ⟨fun _ _ => .exhausted⟩
  | succ fuel ih =>
    exact ⟨fun caps plain => ih.evaluateOnce_matches (.outermost _) (.plain plain) caps⟩

/-! ### Interpreters -/

/-- Plain expressions that are evaluated at the root one after the other. -/
theorem Serves.evaluateAll_matches (serves : τ.Serves g) {es : List Value}
    (plain : ∀ e ∈ es, τ.Plain e) {cap cap' : BacktraceCap} (caps : τ.caps cap cap') :
    τ.Matches w (fun _ => Forall₂ (τ.Ends (Value.Twin τ)))
      (es.mapM fun e => g.evaluateOnce ⟨τ.root, []⟩ e cap)
      (es.mapM fun e => g.evaluateOnce ⟨τ.root, []⟩ e cap') := by
  induction es generalizing w with
  | nil => exact .pure .nil
  | cons e es ih =>
    obtain ⟨here, more⟩ := List.forall_mem_cons.mp plain
    rw [List.mapM_cons, List.mapM_cons]
    refine (serves.evaluateOnce_matches (.outermost _) (.plain here) caps).bind fun _ first => ?_
    exact (ih more).bind fun _ rest => .pure (.cons first rest)

/-- Whatever one of two interpreters answers to plain expressions, the other answers twins of it. -/
theorem evaluateAll_iff (host : Host σ) {w' : World σ} (worlds : τ.Worlds w w')
    {config config' : Config} (caps : τ.caps config.maxBacktrace config'.maxBacktrace)
    {es : List Value} (plain : ∀ e ∈ es, τ.Plain e) :
    (∀ {rs W}, host.Answers (fun g => es.mapM (Interpreter.evaluate ⟨⟨τ.root, []⟩, config⟩ g)) w rs W →
      ∃ rs' W', host.Answers (fun g => es.mapM (Interpreter.evaluate ⟨⟨τ.root, []⟩, config'⟩ g)) w'
        rs' W' ∧ τ.Worlds W W' ∧ Forall₂ (τ.Ends (Value.Twin τ)) rs rs') ∧
    ∀ {rs' W'}, host.Answers (fun g => es.mapM (Interpreter.evaluate ⟨⟨τ.root, []⟩, config'⟩ g)) w'
        rs' W' →
      ∃ rs W, host.Answers (fun g => es.mapM (Interpreter.evaluate ⟨⟨τ.root, []⟩, config⟩ g)) w rs W ∧
        τ.Worlds W W' ∧ Forall₂ (τ.Ends (Value.Twin τ)) rs rs' := by
  have both := fun fuel => (τ.serves host fuel).evaluateAll_matches (w := w) plain caps |>.answer worlds
  refine ⟨fun {rs W} answers => ?_, fun {rs' W'} answers => ?_⟩
  · obtain ⟨fuel, run⟩ := answers
    have ended := both fuel
    have run : (es.mapM fun e => (Engine.withFuel host fuel).evaluateOnce ⟨τ.root, []⟩ e
      config.maxBacktrace) w = some (rs, W) := run
    rw [run] at ended
    generalize answer : (es.mapM fun e => (Engine.withFuel host fuel).evaluateOnce ⟨τ.root, []⟩ e
      config'.maxBacktrace) w' = right at ended
    cases ended with
    | some leads => exact ⟨_, _, ⟨fuel, answer⟩, leads.2⟩
  · obtain ⟨fuel, run⟩ := answers
    have ended := both fuel
    have run : (es.mapM fun e => (Engine.withFuel host fuel).evaluateOnce ⟨τ.root, []⟩ e
      config'.maxBacktrace) w' = some (rs', W') := run
    rw [run] at ended
    generalize answer : (es.mapM fun e => (Engine.withFuel host fuel).evaluateOnce ⟨τ.root, []⟩ e
      config.maxBacktrace) w = left at ended
    cases ended with
    | some leads => exact ⟨_, _, ⟨fuel, answer⟩, leads.2⟩

/-- The tables of two interpreters of the standard library bind twins, but for the extra names. -/
theorem seed_twin {config config' : Config} (caps : τ.caps config.maxBacktrace config'.maxBacktrace)
    {name : String} (free : name ∉ τ.extras) :
    Option.Rel (Value.Twin τ) (Interpreter.seed Library.table ∅ config)[name]?
      (Interpreter.seed Library.table τ.extras config')[name]? := by
  rw [Interpreter.seed_get, Interpreter.seed_get, Std.TreeMap.getElem?_eq_none free,
    Std.TreeMap.getElem?_emptyc, Option.none_or, Option.none_or]
  by_cases declaring : name = Form.name (.exports config.maxBacktrace)
  · have declaring' : name = Form.name (.exports config'.maxBacktrace) := declaring
    rw [if_pos declaring, if_pos declaring']
    exact .some (.callable (.exports caps))
  · have other : name ≠ Form.name (.exports config'.maxBacktrace) := declaring
    rw [if_neg declaring, if_neg other]
    cases found : Library.table[name]? with
    | none => exact .none
    | some v =>
      rcases Library.table_get found with rfl | ⟨entry, member, rfl⟩
      · exact .some .nil
      · exact .some (.callable (.core (Library.entries_core member)))

/-- Interpreters of the standard library start in worlds that are twins. -/
theorem Worlds.build (w : World σ) {config config' : Config}
    (caps : τ.caps config.maxBacktrace config'.maxBacktrace)
    (root : τ.root = w.scopes.tables.size)
    (apart : ∀ name ∈ τ.extras, name ∉ Library.table ∧ name ≠ "export") :
    τ.Worlds (Interpreter.build w Library.table ∅ config).2
      (Interpreter.build w Library.table τ.extras config').2 where
  closures := rfl
  opened := by
    show (w.scopes.openRoot _).2.tables.size = (w.scopes.openRoot _).2.tables.size
    rw [Scopes.tables_openRoot, Scopes.tables_openRoot]
  rooted := by
    show τ.root < (w.scopes.openRoot _).2.tables.size
    rw [Scopes.tables_openRoot, root]
    exact Nat.lt_succ_self _
  bound {x name} behind apart := by
    show Option.Rel _ ((w.scopes.openRoot _).2.local? x name) ((w.scopes.openRoot _).2.local? x name)
    by_cases here : x = w.scopes.tables.size
    · rw [here, Scopes.local?_openRoot_self, Scopes.local?_openRoot_self]
      exact seed_twin caps (apart.resolve_left fun other => other (here.trans root.symm))
    · have unopened : w.scopes.tables.size ≤ x := root ▸ behind
      rw [Scopes.local?_openRoot_other here, Scopes.local?_openRoot_other here,
        Scopes.local?_unopened unopened]
      exact .none
  extra {name} hidden := by
    obtain ⟨noEntry, noForm⟩ := apart name hidden
    show (w.scopes.openRoot _).2.local? τ.root name = none ∧
      (w.scopes.openRoot _).2.local? τ.root name = _
    rw [root, Scopes.local?_openRoot_self, Scopes.local?_openRoot_self, Interpreter.seed_get,
      Interpreter.seed_get, Std.TreeMap.getElem?_emptyc, Option.none_or,
      if_neg (show name ≠ Form.name (.exports config.maxBacktrace) from noForm),
      Std.TreeMap.getElem?_eq_none noEntry, if_neg (show name ≠ Form.name
        (.exports config'.maxBacktrace) from noForm), Option.or_none]
    exact ⟨rfl, rfl⟩

/-! ### Portable expressions -/

theorem Plain.of_known {ρ : Likeness}
    (declaring : ∀ {c}, ρ.admits c → ∃ cap, c = .form (.exports cap)) {c : Callable}
    (known : ρ.Knows c) : τ.Plain (.callable c) := by
  rcases known with core | admitted
  · exact .callable core
  · obtain ⟨cap, rfl⟩ := declaring admitted
    exact .exports cap

mutual

/-- An expression without closures and without callables of a host is plain if it mentions none of the
extra names. -/
theorem Plain.of_alike {ρ : Likeness} (noClosures : ∀ {i j}, ¬ ρ.identity i j)
    (declaring : ∀ {c}, ρ.admits c → ∃ cap, c = .form (.exports cap)) {v w : Value}
    (alike : v.Alike ρ w) (unmentioned : ∀ name ∈ τ.extras, ¬ (Value.symbol name).OccursIn v) :
    τ.Plain v := by
  match alike with
  | .number x => exact .number x
  | .symbol name => exact .symbol fun hidden => unmentioned name hidden .self
  | .nil => exact .nil
  | .truth => exact .truth
  | .list all => exact .list (Plain.all_of_alike noClosures declaring all
      fun name hidden v member inside => unmentioned name hidden (.item member inside))
  | .native known => exact .of_known declaring known
  | .form known => exact .of_known declaring known
  | .expander known => exact .of_known declaring known
  | .closure same _ _ => exact absurd same noClosures

theorem Plain.all_of_alike {ρ : Likeness} (noClosures : ∀ {i j}, ¬ ρ.identity i j)
    (declaring : ∀ {c}, ρ.admits c → ∃ cap, c = .form (.exports cap)) {vs ws : List Value}
    (all : Forall₂ (Value.Alike ρ) vs ws)
    (unmentioned : ∀ name ∈ τ.extras, ∀ v ∈ vs, ¬ (Value.symbol name).OccursIn v) :
    ∀ v ∈ vs, τ.Plain v := by
  match all with
  | .nil => exact nofun
  | .cons first rest =>
    exact List.forall_mem_cons.mpr
      ⟨Plain.of_alike noClosures declaring first
        fun name hidden => unmentioned name hidden _ List.mem_cons_self,
      Plain.all_of_alike noClosures declaring rest
        fun name hidden v member => unmentioned name hidden v (.tail _ member)⟩

end

theorem Plain.of_standard {e : Value} (standard : e.Standard)
    (unmentioned : ∀ name ∈ τ.extras, ¬ (Value.symbol name).OccursIn e) : τ.Plain e :=
  .of_alike id id standard unmentioned

end Twinning

end CooperativeLisp

import CooperativeLisp.Proofs.Faithful
import CooperativeLisp.Proofs.Orderly

/-!
Over a host that builds no streams by hand, the direct evaluator never ends with an internal
failure. The library, the reading of parameter lists and of declarations, and the scopes have
failures of their own, none of them internal; everything else hands on what it is given.
-/

namespace CooperativeLisp

variable {σ : Type}

/-! ### Failures of a compilation -/

namespace LambdaList

variable {otherwise : Value → TypeFault} {v : Value} {vs : List Value} {seen : List String}
variable {e : Error}

theorem nameOf_raised (wrong : nameOf otherwise v = .error e) : e.Raised := by
  cases v <;> cases wrong <;> exact ⟨nofun, rfl⟩

theorem readRest_raised (wrong : readRest seen vs = .error e) : e.Raised := by
  cases vs with
  | nil => cases wrong
  | cons v more =>
    obtain wrong | ⟨name, wrong⟩ := Error.of_bind wrong
    · exact nameOf_raised wrong
    dsimp only at wrong
    by_cases reserved : Symbol.isReserved name = true
    · rw [if_pos reserved] at wrong
      cases wrong
      exact ⟨nofun, rfl⟩
    rw [if_neg reserved] at wrong
    split at wrong
    · cases wrong
      exact ⟨nofun, rfl⟩
    split at wrong
    · cases wrong
      exact ⟨nofun, rfl⟩
    · cases wrong

theorem readAfter_raised (wrong : readAfter seen vs = .error e) : e.Raised := by
  induction vs generalizing seen with
  | nil => cases wrong
  | cons v more ih =>
    obtain wrong | ⟨name, wrong⟩ := Error.of_bind wrong
    · exact nameOf_raised wrong
    split at wrong
    · obtain wrong | ⟨rest, wrong⟩ := Error.of_bind wrong
      · exact readRest_raised wrong
      · cases wrong
    dsimp only at wrong
    split at wrong
    · cases wrong
      exact ⟨nofun, rfl⟩
    split at wrong
    · cases wrong
      exact ⟨nofun, rfl⟩
    · exact ih wrong

theorem read_raised (wrong : read v = .error e) : e.Raised := by
  unfold read at wrong
  split at wrong
  · exact readAfter_raised wrong
  · cases wrong
    exact ⟨nofun, rfl⟩

end LambdaList

theorem World.makeClosure_raised {w w' : World σ} {params body : Value} {env : Environment}
    {e : Error} (failed : w.makeClosure params body env = (.error e, w')) :
    e.Raised := by
  have failed : Closure.make w.closures params body env = .error e := congrArg Prod.fst failed
  unfold Closure.make at failed
  split at failed
  · cases failed
  · rename_i wrong
    cases failed
    exact LambdaList.read_raised wrong

theorem World.bind_kind {w w' : World σ} {env : Environment} {name : String} {v : Value}
    {e : Error} (failed : w.bind env name v = (.error e, w')) : e.fault.kind ≠ .internal := by
  unfold World.bind Scopes.bind at failed
  split at failed
  · cases failed
  rename_i refused
  cases failed
  split at refused
  · cases refused
    exact nofun
  split at refused
  · cases refused
    exact nofun
  · cases refused

namespace Binding

theorem read_raised {v : Value} {e : Error} (wrong : read v = .error e) :
    e.Raised := by
  unfold read at wrong
  dsimp only at wrong
  split at wrong
  · cases wrong
  · split at wrong <;> cases wrong
    exact ⟨nofun, rfl⟩
  · split at wrong <;> cases wrong
    exact ⟨nofun, rfl⟩
  · cases wrong
    exact ⟨nofun, rfl⟩

theorem mapM_read_raised {vs : List Value} {e : Error} (wrong : vs.mapM read = .error e) :
    e.Raised := by
  induction vs with
  | nil => cases wrong
  | cons v vs ih =>
    rw [List.mapM_cons] at wrong
    obtain wrong | ⟨b, wrong⟩ := Error.of_bind wrong
    · exact read_raised wrong
    obtain wrong | ⟨bs, wrong⟩ := Error.of_bind wrong
    · exact ih wrong
    · cases wrong

theorem readAll_raised {v : Value} {e : Error} (wrong : readAll v = .error e) :
    e.Raised := by
  unfold readAll at wrong
  split at wrong
  · exact mapM_read_raised wrong
  · cases wrong
    exact ⟨nofun, rfl⟩

end Binding

theorem Engine.declaredName_kind {v : Value} {e : Error} (wrong : declaredName v = .error e) :
    e.fault.kind ≠ .internal := by
  cases v <;> cases wrong <;> exact nofun

theorem Scopes.operator_kind {scopes : Scopes} {env : Environment} {v : Value} {f : Fault}
    (none : scopes.operator env v = .error f) : f.kind ≠ .internal := by
  unfold Scopes.operator at none
  split at none
  · split at none <;> cases none <;> exact nofun
  · cases none
  · cases none
    exact nofun

theorem Expander.expand?_raised {x : Expander} {operands : List Value} {e : Error}
    (failed : x.expand? operands = some (.error e)) : e.Raised := by
  unfold expand? at failed
  split at failed
  · obtain wrong | ⟨bindings, wrong⟩ := Error.of_bind (Option.some.inj failed)
    · exact Binding.readAll_raised wrong
    · cases wrong
  · obtain wrong | ⟨bindings, wrong⟩ := Error.of_bind (Option.some.inj failed)
    · exact Binding.readAll_raised wrong
    · cases wrong
  · cases failed
    exact ⟨nofun, rfl⟩
  · cases failed
    exact ⟨nofun, rfl⟩
  all_goals cases failed

/-! ### Results -/

/-- The result is not an internal failure. -/
def Regular {α : Type} : Except Fault α → Prop
  | .ok _ => True
  | .error f => f.kind ≠ .internal

theorem Regular.map {α β : Type} {r : Except Fault α} (regular : Regular r) (k : α → β) :
    Regular (r.map k) := by
  cases r with
  | ok a => exact trivial
  | error f => exact regular

/-- A host whose natives answer with a value, an expression to be compiled or a callable to be
invoked, whose forms answer with a value or an expression to be compiled, and which never fails with
an internal error. -/
structure Host.Plain (host : Host σ) : Prop where
  native : ∀ {name args w reply w'}, (host.native name args).run.run w = (reply, w') → Orderly reply
  form : ∀ {name operands env w answer w'},
    (host.form name operands env).run.run w = (answer, w') → Orderly (answer.map .answer)
  expander : ∀ {name operands env w e w'},
    (host.expander name operands env).run.run w = (.error e, w') → e.fault.kind ≠ .internal

namespace Host

variable {host : Host σ}

namespace Plain

theorem sound (plain : host.Plain) : host.Sound :=
  ⟨fun replied => (plain.native replied).elim, fun answered => (plain.form answered).elim⟩

theorem nativeReply (plain : host.Plain) {n : Native} {args : List Value} {w w' : World σ}
    {reply : Except Error Reply} (replied : host.nativeReply n args w = (reply, w')) :
    Orderly reply := by
  cases n with
  | primitive p =>
    cases replied
    exact p.run_orderly args
  | host name => exact plain.native replied

theorem expansion_kind (plain : host.Plain) {x : Expander} {operands : List Value}
    {env : Environment} {w w' : World σ} {e : Error}
    (failed : host.expansion x operands env w = (.error e, w')) : e.fault.kind ≠ .internal := by
  unfold Host.expansion at failed
  split at failed
  · rename_i refused
    cases failed
    exact (Arity.validate_raised refused).kind
  split at failed
  · rename_i expanded
    cases failed
    exact (Expander.expand?_raised expanded).kind
  · exact plain.expander failed

end Plain

mutual

theorem Resolves.regular (plain : host.Plain) {env : Environment} {e : Value} {w w' : World σ}
    {r : Except Fault Resolved} (resolves : host.Resolves env e w r w') : Regular r := by
  match resolves with
  | .nilMarker | .truthMarker | .symbol .. | .empty | .atom .. => exact trivial
  | .unbound .. | .formArity .. => exact nofun
  | .computed _ resolves => exact resolves.regular plain
  | .noOperator _ unresolved => exact Scopes.operator_kind unresolved
  | .expands _ _ resolves => exact resolves.regular plain
  | .expandsNot _ failed => exact plain.expansion_kind failed
  | .form _ _ applies => exact applies.regular plain
  | .application _ _ all => exact (all.regular plain).map _

theorem ResolvesAll.regular (plain : host.Plain) {env : Environment} {es : List Value}
    {w w' : World σ} {r : Except Fault (List Resolved)}
    (resolves : host.ResolvesAll env es w r w') : Regular r := by
  match resolves with
  | .nil => exact trivial
  | .cons _ one => exact (one.regular plain).map _
  | .fails all => exact all.regular plain

theorem Applies.regular (plain : host.Plain) {f : Form} {operands : List Value}
    {env : Environment} {w w' : World σ} {r : Except Fault Resolved}
    (applies : host.Applies f operands env w r w') : Regular r := by
  match applies with
  | .quote | .lambda .. | .emptySequence | .hostValue .. => exact trivial
  | .lambdaFails failed => exact (World.makeClosure_raised failed).kind
  | .choice condition | .fullChoice condition => exact (condition.regular plain).map _
  | .manyBranches => exact nofun
  | .sequence first => exact (first.regular plain).map _
  | .noBindings wrong => exact (Binding.readAll_raised wrong).kind
  | .exports _ declares => exact (declares.regular plain).map _
  | .hostFails answered => exact plain.form answered
  | .hostStream answered _ => exact (plain.form answered).elim
  | .hostCompile _ resolves => exact resolves.regular plain

theorem Declares.regular (plain : host.Plain) {root : Environment} {bs : List Binding}
    {w w' : World σ} {r : Except Fault Unit} (declares : host.Declares root bs w r w') :
    Regular r := by
  match declares with
  | .nil => exact trivial
  | .noName wrong => exact Engine.declaredName_kind wrong
  | .defined .. => exact nofun
  | .fails _ _ direct => exact direct.regular plain
  | .bindsNot _ _ _ refused => exact World.bind_kind refused
  | .cons _ _ _ _ rest => exact rest.regular plain

theorem Evaluates.regular (plain : host.Plain) {t : Resolved} {w w' : World σ}
    {r : Except Fault Value} (evaluates : host.Evaluates t w r w') : Regular r := by
  match evaluates with
  | .value => exact trivial
  | .application _ operates => exact operates.regular plain
  | .operandFails all => exact all.regular plain

theorem EvaluatesAll.regular (plain : host.Plain) {ts : List Resolved} {w w' : World σ}
    {r : Except Fault (List Value)} (evaluates : host.EvaluatesAll ts w r w') : Regular r := by
  match evaluates with
  | .nil => exact trivial
  | .cons _ all => exact (all.regular plain).map _
  | .fails one => exact one.regular plain

theorem Operates.regular (plain : host.Plain) {operation : Operation} {args : List Value}
    {w w' : World σ} {r : Except Fault Value} (operates : host.Operates operation args w r w') :
    Regular r := by
  match operates with
  | .callable calls => exact calls.regular plain
  | .consequent _ direct | .alternative _ direct => exact direct.regular plain
  | .sequel direct => exact direct.regular plain

theorem Calls.regular (plain : host.Plain) {c : Callable} {args : List Value} {w w' : World σ}
    {r : Except Fault Value} (calls : host.Calls c args w r w') : Regular r := by
  match calls with
  | .closure _ direct => exact direct.regular plain
  | .form | .expander => exact nofun
  | .nativeFails replied => exact plain.nativeReply replied
  | .value _ => exact trivial
  | .streamFails replied _ | .stream replied _ _ => exact (plain.nativeReply replied).elim
  | .compile _ direct => exact direct.regular plain
  | .invoke _ calls => exact calls.regular plain

/-- The direct evaluator never ends with an internal failure. -/
theorem Direct.regular (plain : host.Plain) {env : Environment} {e : Value} {w w' : World σ}
    {r : Except Fault Value} (direct : host.Direct env e w r w') : Regular r := by
  match direct with
  | .fails resolves => exact resolves.regular plain
  | .evaluates _ evaluates => exact evaluates.regular plain

end

end Host

end CooperativeLisp

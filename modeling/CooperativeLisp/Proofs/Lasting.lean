import CooperativeLisp.Proofs.Direct
import CooperativeLisp.Proofs.Scopes

/-!
Names stay bound. A scope gets further names and other values for the ones it has, but it never loses
a name, and a new scope is opened beside all that there are. So a name that resolves in an environment
still resolves there when other expressions have been compiled or evaluated.
-/

namespace CooperativeLisp

variable {σ : Type}

/-- Every scope of the first world still binds all of its names in the second. -/
def World.Retains (w w' : World σ) : Prop :=
  ∀ x name, (w.scopes.local? x name).isSome → (w'.scopes.local? x name).isSome

/-- A host whose functions take no name away from a scope. -/
structure Host.Retains (host : Host σ) : Prop where
  native : ∀ name args w, World.Retains w ((host.native name args).run.run w).2
  form : ∀ name operands env w, World.Retains w ((host.form name operands env).run.run w).2
  expander : ∀ name operands env w, World.Retains w ((host.expander name operands env).run.run w).2

namespace World.Retains

variable {w w' w'' : World σ} {env : Environment} {name : String} {v : Value}

theorem refl (w : World σ) : w.Retains w :=
  fun _ _ => id

theorem trans (first : w.Retains w') (second : w'.Retains w'') : w.Retains w'' :=
  fun x name bound => second x name (first x name bound)

/-- What a computation retains, whatever it answers. -/
theorem ends {α : Type} {run : α × World σ} {answer : α} (retains : w.Retains run.2)
    (ended : run = (answer, w')) : w.Retains w' := by
  rwa [ended] at retains

theorem openChild {table : Table} {child : Environment} {scopes : Scopes}
    (opened : w.scopes.openChild env table = (child, scopes)) :
    w.Retains { w with scopes } := by
  intro x name bound
  obtain rfl : (w.scopes.openChild env table).2 = scopes := congrArg Prod.snd opened
  show ((w.scopes.openChild env table).2.local? x name).isSome
  rwa [Scopes.local?_openChild_other]
  rintro rfl
  rw [Scopes.local?_unopened (Nat.le_refl _)] at bound
  cases bound

theorem makeClosure {params body : Value} : w.Retains (w.makeClosure params body env).2 :=
  fun _ _ => id

theorem bind : w.Retains (w.bind env name v).2 := by
  intro x other bound
  unfold World.bind
  cases ended : w.scopes.bind env name v with
  | error e => exact bound
  | ok scopes =>
    obtain ⟨-, -, rfl⟩ := Scopes.bind_eq_ok ended
    show ((w.scopes.define env.scope name v).local? x other).isSome
    rw [Scopes.local?_define]
    split
    · rfl
    · exact bound

/-- A name that resolves in an environment goes on to do so. -/
theorem get? (retains : w.Retains w') (bound : (w.scopes.get? env name).isSome) :
    (w'.scopes.get? env name).isSome := by
  unfold Scopes.get? at bound ⊢
  generalize env.chain = chain at bound ⊢
  induction chain with
  | nil => cases bound
  | cons x outer ih =>
    unfold Scopes.find? at bound ⊢
    cases here : w.scopes.local? x name with
    | some v =>
      obtain ⟨v', still⟩ := Option.isSome_iff_exists.mp (retains x name (here ▸ rfl))
      rw [still]
      rfl
    | none =>
      rw [here] at bound
      split
      · rfl
      · exact ih bound

end World.Retains

/-! ### What the direct evaluator retains -/

namespace Host

variable {host : Host σ}

namespace Retains

variable {w w' : World σ} {env : Environment}

theorem nativeReply (retains : host.Retains) {n : Native} {args : List Value}
    {r : Except Error Reply} (replied : host.nativeReply n args w = (r, w')) : w.Retains w' := by
  cases n with
  | primitive p =>
    cases replied
    exact .refl w
  | host name => exact (retains.native name args w).ends replied

theorem expansion (retains : host.Retains) {x : Expander} {operands : List Value}
    {r : Except Error Value} (expanded : host.expansion x operands env w = (r, w')) :
    w.Retains w' := by
  unfold Host.expansion at expanded
  split at expanded
  · cases expanded
    exact .refl w
  split at expanded
  · cases expanded
    exact .refl w
  · exact (retains.expander _ operands env w).ends expanded

theorem answered (retains : host.Retains) {name : String} {operands : List Value}
    {r : Except Error Answer} (answered : (host.form name operands env).run.run w = (r, w')) :
    w.Retains w' :=
  (retains.form name operands env w).ends answered

end Retains

mutual

theorem Resolves.retains (retains : host.Retains) {env : Environment} {e : Value} {w w' : World σ}
    {r : Except Fault Resolved} (resolves : host.Resolves env e w r w') : w.Retains w' := by
  match resolves with
  | .nilMarker | .truthMarker | .symbol .. | .unbound .. | .empty | .atom _ | .noOperator ..
  | .formArity .. => exact .refl w
  | .computed _ resolves => exact resolves.retains retains
  | .expands _ expanded resolves =>
    exact (retains.expansion expanded).trans (resolves.retains retains)
  | .expandsNot _ expanded => exact retains.expansion expanded
  | .form _ _ applies => exact applies.retains retains
  | .application _ _ resolves => exact resolves.retains retains

theorem ResolvesAll.retains (retains : host.Retains) {env : Environment} {es : List Value}
    {w w' : World σ} {r : Except Fault (List Resolved)}
    (resolves : host.ResolvesAll env es w r w') : w.Retains w' := by
  match resolves with
  | .nil => exact .refl w
  | .cons rest first => exact (rest.retains retains).trans (first.retains retains)
  | .fails rest => exact rest.retains retains

theorem Applies.retains (retains : host.Retains) {f : Form} {operands : List Value}
    {env : Environment} {w w' : World σ} {r : Except Fault Resolved}
    (applies : host.Applies f operands env w r w') : w.Retains w' := by
  match applies with
  | .quote | .manyBranches | .emptySequence | .noBindings _ => exact .refl w
  | .lambda made | .lambdaFails made => exact World.Retains.makeClosure.ends made
  | .choice resolves | .fullChoice resolves | .sequence resolves => exact resolves.retains retains
  | .exports _ declares => exact declares.retains retains
  | .hostFails answered | .hostValue answered | .hostStream answered _ =>
    exact retains.answered answered
  | .hostCompile answered resolves =>
    exact (retains.answered answered).trans (resolves.retains retains)

theorem Declares.retains (retains : host.Retains) {root : Environment} {bs : List Binding}
    {w w' : World σ} {r : Except Fault Unit} (declares : host.Declares root bs w r w') :
    w.Retains w' := by
  match declares with
  | .nil | .noName _ | .defined .. => exact .refl w
  | .fails _ _ direct => exact direct.retains retains
  | .bindsNot _ _ direct bound =>
    exact (direct.retains retains).trans (World.Retains.bind.ends bound)
  | .cons _ _ direct bound more =>
    have bound := (direct.retains retains).trans (World.Retains.bind.ends bound)
    exact bound.trans (more.retains retains)

theorem Evaluates.retains (retains : host.Retains) {t : Resolved} {w w' : World σ}
    {r : Except Fault Value} (evaluates : host.Evaluates t w r w') : w.Retains w' := by
  match evaluates with
  | .value => exact .refl w
  | .application operands operates =>
    exact (operands.retains retains).trans (operates.retains retains)
  | .operandFails operands => exact operands.retains retains

theorem EvaluatesAll.retains (retains : host.Retains) {ts : List Resolved} {w w' : World σ}
    {r : Except Fault (List Value)} (evaluates : host.EvaluatesAll ts w r w') : w.Retains w' := by
  match evaluates with
  | .nil => exact .refl w
  | .cons first rest => exact (first.retains retains).trans (rest.retains retains)
  | .fails first => exact first.retains retains

theorem Operates.retains (retains : host.Retains) {operation : Operation} {args : List Value}
    {w w' : World σ} {r : Except Fault Value} (operates : host.Operates operation args w r w') :
    w.Retains w' := by
  match operates with
  | .callable calls => exact calls.retains retains
  | .consequent _ direct | .alternative _ direct | .sequel direct => exact direct.retains retains

theorem Calls.retains (retains : host.Retains) {c : Callable} {args : List Value} {w w' : World σ}
    {r : Except Fault Value} (calls : host.Calls c args w r w') : w.Retains w' := by
  match calls with
  | .closure opened direct =>
    exact (World.Retains.openChild opened).trans (direct.retains retains)
  | .form | .expander => exact .refl w
  | .nativeFails replied | .value replied | .streamFails replied _ =>
    exact retains.nativeReply replied
  | .stream replied _ evaluates =>
    exact (retains.nativeReply replied).trans (evaluates.retains retains)
  | .compile replied direct => exact (retains.nativeReply replied).trans (direct.retains retains)
  | .invoke replied calls => exact (retains.nativeReply replied).trans (calls.retains retains)

/-- Declarations, the branches of a choice and the bodies of closures are evaluated by it. -/
theorem Direct.retains (retains : host.Retains) {env : Environment} {e : Value} {w w' : World σ}
    {r : Except Fault Value} (direct : host.Direct env e w r w') : w.Retains w' := by
  match direct with
  | .fails resolves => exact resolves.retains retains
  | .evaluates resolves evaluates => exact (resolves.retains retains).trans (evaluates.retains retains)

end

end Host

end CooperativeLisp

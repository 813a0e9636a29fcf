import CooperativeLisp.Proofs.BindingForms
import CooperativeLisp.Proofs.WriteOnce

/-!
What the direct evaluator leaves as it was. Main statement: in a sound world, of a host whose
functions touch environments only by binding names, whatever is resolved or evaluated leads to a sound
world that keeps what was bound, and what it comes to is held there.
-/

namespace CooperativeLisp

variable {σ : Type} {roots : ScopeId → Prop} {children : Prop} {keeps : Scopes → σ → Prop}

/-- A sound world that keeps what an earlier one has bound. -/
structure World.Follows (roots : ScopeId → Prop) (children : Prop) (keeps : Scopes → σ → Prop)
    (w w' : World σ) : Prop where
  kept : w.scopes.Kept roots children w'.scopes
  sound : w'.Sound roots keeps

/-- A tree of which every frame is held. -/
def Resolved.Held (roots : ScopeId → Prop) (scopes : Scopes) (t : Resolved) : Prop :=
  ∀ f ∈ t.frames, f.Alike (.own roots scopes) f

namespace World.Follows

variable {w w' w'' : World σ}

theorem refl (sound : w.Sound roots keeps) : w.Follows roots children keeps w :=
  ⟨.refl _, sound⟩

theorem trans (start : w.Sound roots keeps) (first : w.Follows roots children keeps w')
    (second : w'.Follows roots children keeps w'') : w.Follows roots children keeps w'' :=
  ⟨first.kept.trans start.scopes second.kept, second.sound⟩

/-- An identity is used up. -/
theorem identified (follows : w.Follows roots children keeps w') :
    w.Follows roots children keeps w'.identified :=
  ⟨follows.kept, follows.sound.scopes, follows.sound.host⟩

theorem genuine {env : Environment} (follows : w.Follows roots children keeps w')
    (genuine : env.Genuine roots w.scopes) : env.Genuine roots w'.scopes :=
  genuine.grows follows.kept.opened

theorem held {v : Value} (follows : w.Follows roots children keeps w')
    (held : v.Held roots w.scopes) : v.Held roots w'.scopes :=
  held.grows follows.kept.opened

theorem heldAll {vs : List Value} (follows : w.Follows roots children keeps w')
    (held : ∀ v ∈ vs, v.Held roots w.scopes) : ∀ v ∈ vs, v.Held roots w'.scopes :=
  fun v member => follows.held (held v member)

theorem tree {t : Resolved} (follows : w.Follows roots children keeps w')
    (held : t.Held roots w.scopes) : t.Held roots w'.scopes :=
  fun f inside => (held f inside).mono (Likeness.own_le follows.kept.opened)

theorem trees {ts : List Resolved} (follows : w.Follows roots children keeps w')
    (held : ∀ t ∈ ts, t.Held roots w.scopes) : ∀ t ∈ ts, t.Held roots w'.scopes :=
  fun t member => follows.tree (held t member)

end World.Follows

/-! ### Trees -/

namespace Resolved

variable {scopes : Scopes}

theorem held_value {v : Value} : (value v).Held roots scopes ↔ v.Held roots scopes := by
  constructor
  · intro held
    cases held (.value v) (List.mem_singleton_self _) with
    | value same => exact same
  · rintro held f member
    obtain rfl := List.mem_singleton.mp member
    exact .value held

theorem held_allFrames {ts : List Resolved} :
    (∀ f ∈ allFrames ts, f.Alike (.own roots scopes) f) ↔ ∀ t ∈ ts, t.Held roots scopes := by
  induction ts with
  | nil => simp [allFrames]
  | cons t ts ih =>
    simp only [allFrames, List.forall_mem_append, ih, List.forall_mem_cons]
    exact Iff.rfl

theorem held_application {operation : Operation} {ts : List Resolved} {origin : Value} :
    (application operation ts origin).Held roots scopes ↔ (∀ t ∈ ts, t.Held roots scopes) ∧
      operation.Alike (.own roots scopes) operation ∧ origin.Held roots scopes := by
  show (∀ f ∈ allFrames ts ++ [.call operation ts.length origin], _) ↔ _
  rw [List.forall_mem_append, held_allFrames, List.forall_mem_singleton]
  refine and_congr_right fun _ => ⟨fun call => ?_, fun call => .call call.1 call.2⟩
  cases call with
  | call same held => exact ⟨same, held⟩

end Resolved

/-! ### Runs -/

namespace Host

variable {host : Host σ} {env : Environment} {e : Value} {es : List Value}
variable {w w' : World σ}

theorem Writes.reaches (writes : host.Writes roots children keeps) {n : Nat}
    {calls : List Invocation} {a b : Advance} (reach : host.Reaches n calls a w b w')
    (sound : w.Sound roots keeps) (held : a.Alike (.own roots w.scopes) a) :
    w.Follows roots children keeps w' ∧ b.Alike (.own roots w'.scopes) b := by
  induction reach with
  | refl => exact ⟨.refl sound, held⟩
  | step step _ ih =>
    obtain ⟨after, kept, same⟩ := writes.steps sound held step
    obtain ⟨rest, last⟩ := ih after same
    exact ⟨.trans sound ⟨kept, after⟩ rest, last⟩

/-! ### The direct evaluator -/

theorem Resolves.steadfast (writes : host.Writes roots children keeps) (sound : w.Sound roots keeps)
    (genuine : env.Genuine roots w.scopes) (held : e.Held roots w.scopes)
    {r : Except Fault Resolved} (resolves : host.Resolves env e w r w') :
    w.Follows roots children keeps w' ∧ ∀ t, r = .ok t → t.Held roots w'.scopes := by
  obtain ⟨s, compiled, renders⟩ := resolves.places.compile
  obtain ⟨after, kept, same⟩ := writes.compiles sound held genuine compiled
  refine ⟨⟨kept, after⟩, ?_⟩
  rintro t rfl
  intro f member
  rw [← renders.2] at member
  exact List.forall₂_same.mp same.frames f member

theorem ResolvesAll.steadfast (writes : host.Writes roots children keeps)
    (sound : w.Sound roots keeps) (genuine : env.Genuine roots w.scopes)
    (held : ∀ e ∈ es, e.Held roots w.scopes) {r : Except Fault (List Resolved)}
    (resolves : host.ResolvesAll env es w r w') :
    w.Follows roots children keeps w' ∧ ∀ ts, r = .ok ts → ∀ t ∈ ts, t.Held roots w'.scopes := by
  induction es generalizing r w' with
  | nil =>
    cases resolves
    refine ⟨.refl sound, ?_⟩
    rintro ts same
    cases same
    exact List.forall_mem_nil _
  | cons e es ih =>
    obtain ⟨first, others⟩ := List.forall_mem_cons.mp held
    rcases resolvesAll_cons.mp resolves with ⟨f, rest, rfl⟩ | ⟨us, w₁, one, rest, last, rfl⟩
    · exact ⟨(ih others rest).1, fun _ failed => by cases failed⟩
    · obtain ⟨before, trees⟩ := ih others rest
      obtain ⟨after, tree⟩ := last.steadfast writes before.sound (before.genuine genuine)
        (before.held first)
      refine ⟨before.trans sound after, fun ts same => ?_⟩
      cases one with
      | error f => cases same
      | ok t =>
        cases same
        exact List.forall_mem_cons.mpr ⟨tree t rfl, after.trees (trees us rfl)⟩

/-- A tree on a machine of its own. -/
theorem Evaluates.steadfast (writes : host.Writes roots children keeps) (sound : w.Sound roots keeps)
    {t : Resolved} (held : t.Held roots w.scopes) {r : Except Fault Value}
    (evaluates : host.Evaluates t w r w') :
    w.Follows roots children keeps w' ∧ ∀ v, r = .ok v → v.Held roots w'.scopes := by
  have start : Machine.Alike (.own roots w.scopes) ⟨t.frames, [], [], 0⟩ ⟨t.frames, [], [], 0⟩ :=
    ⟨List.forall₂_same.mpr held, .nil, .nil, rfl⟩
  have delivers := evaluates.delivers ⟨[], [], [], 0⟩
  simp only [Machine.before, List.append_nil] at delivers
  cases r with
  | error f =>
    obtain ⟨n, calls, e, reach, -⟩ := delivers
    exact ⟨(writes.reaches reach sound start.settle).1, fun _ failed => by cases failed⟩
  | ok v =>
    obtain ⟨n, calls, trace, reach⟩ := delivers
    obtain ⟨follows, ended⟩ := writes.reaches reach sound start.settle
    refine ⟨follows, ?_⟩
    rintro u same
    cases same
    cases ended with
    | done result =>
      cases result with
      | ok held => exact held

theorem EvaluatesAll.steadfast (writes : host.Writes roots children keeps)
    (sound : w.Sound roots keeps) {ts : List Resolved} (held : ∀ t ∈ ts, t.Held roots w.scopes)
    {r : Except Fault (List Value)} (evaluates : host.EvaluatesAll ts w r w') :
    w.Follows roots children keeps w' ∧ ∀ vs, r = .ok vs → ∀ v ∈ vs, v.Held roots w'.scopes := by
  induction ts generalizing r w with
  | nil =>
    cases evaluates
    refine ⟨.refl sound, ?_⟩
    rintro vs same
    cases same
    exact List.forall_mem_nil _
  | cons t ts ih =>
    obtain ⟨first, others⟩ := List.forall_mem_cons.mp held
    cases evaluates with
    | fails one => exact ⟨(one.steadfast writes sound first).1, fun _ failed => by cases failed⟩
    | cons one rest =>
      rename_i r
      obtain ⟨before, value⟩ := one.steadfast writes sound first
      obtain ⟨after, values⟩ := ih before.sound (before.trees others) rest
      refine ⟨before.trans sound after, fun vs same => ?_⟩
      cases r with
      | error f => cases same
      | ok us =>
        cases same
        exact List.forall_mem_cons.mpr ⟨after.held (value _ rfl), values us rfl⟩

theorem Direct.steadfast (writes : host.Writes roots children keeps) (sound : w.Sound roots keeps)
    (genuine : env.Genuine roots w.scopes) (held : e.Held roots w.scopes) {r : Except Fault Value}
    (direct : host.Direct env e w r w') :
    w.Follows roots children keeps w' ∧ ∀ v, r = .ok v → v.Held roots w'.scopes := by
  cases direct with
  | fails resolves =>
    exact ⟨(resolves.steadfast writes sound genuine held).1, fun _ failed => by cases failed⟩
  | evaluates resolves evaluates =>
    obtain ⟨before, tree⟩ := resolves.steadfast writes sound genuine held
    obtain ⟨after, value⟩ := evaluates.steadfast writes before.sound (tree _ rfl)
    exact ⟨before.trans sound after, value⟩

/-- An invocation with what is held opens a genuine scope in a sound world. -/
theorem Writes.enters (writes : host.Writes roots children keeps) (sound : w.Sound roots keeps)
    {c : Closure} {args : List Value} {scope : Environment}
    (callee : Value.Held roots w.scopes (.callable (.closure c)))
    (held : ∀ v ∈ args, v.Held roots w.scopes) (entered : w.enter c args = (scope, w')) :
    w.Follows roots children keeps w' ∧ scope.Genuine roots w'.scopes := by
  have genuine : c.env.Genuine roots w.scopes := by
    cases callee with
    | closure _ _ around => exact around.2
  have more : w.scopes.tables.size < (w.enter c args).2.scopes.tables.size :=
    Nat.lt_of_succ_le (Nat.le_of_eq (w.enter_size c args).symm)
  obtain ⟨rfl, rfl⟩ := Prod.mk.inj entered
  refine ⟨⟨.openChild sound.scopes c args, sound.enter writes callee (Value.heldAll.mpr held)⟩,
    genuine.enter (fun root => ?_) more⟩
  exact Nat.lt_irrefl _ (sound.scopes.opened root)

/-- A host that has no functions binds nothing. -/
theorem none_writes : (Host.none σ).Writes roots children fun _ _ => True where
  grows _ _ := trivial
  native _ _ := ⟨.refl, trivial, .same _⟩
  form _ _ _ := ⟨.refl, trivial, .same _⟩
  expander _ _ _ := ⟨.refl, trivial, .same _⟩

end Host

end CooperativeLisp

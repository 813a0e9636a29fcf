import CooperativeLisp.Proofs.Connectives

/-!
What a declaration of names does. The names are bound at the root one after the other, each to the
value of its expression there, until one of them has to be refused. Main statement: the form binds the
names in front of the refused one and, but for what their expressions bind by themselves, nothing else;
a declaration that is malformed is refused before anything is evaluated.
-/

namespace CooperativeLisp

open List (Forall₂)

variable {σ : Type} {roots : ScopeId → Prop} {children : Prop} {keeps : Scopes → σ → Prop}

namespace Host

variable {host : Host σ} {root env : Environment} {operator v x : Value} {name other : String}
variable {b : Binding} {bs before after bindings : List Binding} {f : Fault}
variable {done : List (String × Value)} {ran last : List (World σ × World σ)}
variable {w w' w₁ w₂ : World σ}

/-! ### What the form should do -/

/-- A name is bound at the root to the value of its expression there. It is none of the reserved
names, and it is free when its turn comes and still free once its expression has been evaluated. -/
inductive Exported (host : Host σ) (root : Environment) (b : Binding) (w : World σ)
    (name : String) (v : Value) (w₁ : World σ) : World σ → Prop
  | intro : b.name = .symbol name → w.scopes.binds root name = false →
      host.Direct root b.init w (.ok v) w₁ → Symbol.isReserved name = false →
      w₁.scopes.binds root name = false →
      Exported host root b w name v w₁ { w₁ with scopes := w₁.scopes.define root.scope name v }

/-- Names are bound one after the other, each expression being evaluated in the world that the names
in front of it have left. Besides the names and their values, the worlds are kept between which an
expression has been evaluated. -/
inductive Carries (host : Host σ) (root : Environment) : List Binding → World σ →
    List (String × Value) → List (World σ × World σ) → World σ → Prop
  | nil {w : World σ} : Carries host root [] w [] [] w
  | cons {b : Binding} {bs : List Binding} {name : String} {v : Value}
      {done : List (String × Value)} {ran : List (World σ × World σ)} {w w₁ w₂ w' : World σ} :
      host.Exported root b w name v w₁ w₂ → Carries host root bs w₂ done ran w' →
      Carries host root (b :: bs) w ((name, v) :: done) ((w, w₁) :: ran) w'

/-- Why a name is refused. A marker and a name that is bound are refused before the expression is
evaluated, a symbol that is spelled as a reserved name and a name that the expression has bound itself
only after it. -/
inductive Stops (host : Host σ) (root : Environment) (b : Binding) (w : World σ) :
    Fault → List (World σ × World σ) → World σ → Prop
  | nil : b.name = .nil → Stops host root b w (.reserved Symbol.nilName) [] w
  | truth : b.name = .truth → Stops host root b w (.reserved Symbol.truthName) [] w
  | bound {name : String} : b.name = .symbol name → w.scopes.binds root name = true →
      Stops host root b w (.alreadyDefined name) [] w
  | fails {name : String} {f : Fault} {w' : World σ} : b.name = .symbol name →
      w.scopes.binds root name = false → host.Direct root b.init w (.error f) w' →
      Stops host root b w f [(w, w')] w'
  | reserved {name : String} {v : Value} {w' : World σ} : b.name = .symbol name →
      w.scopes.binds root name = false → host.Direct root b.init w (.ok v) w' →
      Symbol.isReserved name = true → Stops host root b w (.reserved name) [(w, w')] w'
  | taken {name : String} {v : Value} {w' : World σ} : b.name = .symbol name →
      w.scopes.binds root name = false → host.Direct root b.init w (.ok v) w' →
      Symbol.isReserved name = false → w'.scopes.binds root name = true →
      Stops host root b w (.alreadyDefined name) [(w, w')] w'

/-- What the form does with its operand: all declarations are read before any expression is evaluated,
and then the names are bound, all of them or those in front of the first that is refused. -/
inductive Exports (host : Host σ) (root : Environment) (v : Value) (w : World σ) :
    Except Fault Unit → List (String × Value) → List (World σ × World σ) → World σ → Prop
  | malformed {e : Error} : Binding.readAll v = .error e →
      Exports host root v w (.error e.fault) [] [] w
  | complete {bindings : List Binding} {done : List (String × Value)}
      {ran : List (World σ × World σ)} {w' : World σ} : Binding.readAll v = .ok bindings →
      host.Carries root bindings w done ran w' → Exports host root v w (.ok ()) done ran w'
  | stops {before after : List Binding} {b : Binding} {f : Fault} {done : List (String × Value)}
      {ran last : List (World σ × World σ)} {w₁ w' : World σ} :
      Binding.readAll v = .ok (before ++ b :: after) → host.Carries root before w done ran w₁ →
      host.Stops root b w₁ f last w' → Exports host root v w (.error f) done (ran ++ last) w'

end Host

/-! ### Binding at a root -/

section BindRoot

variable {w w' : World σ} {root : Environment} {name : String} {v : Value}

/-- A reserved name is refused, and so is a name that is bound; a refusal changes nothing. -/
theorem World.bind_root_error {e : Error} (atRoot : root.isRoot = true) :
    w.bind root name v = (.error e, w') ↔ w' = w ∧
      ((Symbol.isReserved name = true ∧ e = Fault.reserved name) ∨
        Symbol.isReserved name = false ∧ w.scopes.binds root name = true ∧
          e = Fault.alreadyDefined name) := by
  unfold World.bind Scopes.bind
  rw [atRoot, Bool.true_and]
  cases Symbol.isReserved name <;> cases w.scopes.binds root name <;> simp [eq_comm, and_comm]

/-- Any other name is bound. -/
theorem World.bind_root_ok (atRoot : root.isRoot = true) :
    w.bind root name v = (.ok (), w') ↔ Symbol.isReserved name = false ∧
      w.scopes.binds root name = false ∧
      w' = { w with scopes := w.scopes.define root.scope name v } := by
  unfold World.bind Scopes.bind
  rw [atRoot, Bool.true_and]
  cases Symbol.isReserved name <;> cases w.scopes.binds root name <;> simp [eq_comm]

end BindRoot

namespace Host

variable {host : Host σ} {root env : Environment} {operator v x : Value} {name other : String}
variable {b : Binding} {bs before after bindings : List Binding} {f : Fault}
variable {done : List (String × Value)} {ran last : List (World σ × World σ)}
variable {w w' w₁ w₂ : World σ}

theorem declaredName_eq_ok : Engine.declaredName v = .ok name ↔ v = .symbol name := by
  constructor
  · intro named
    cases v <;> cases named
    rfl
  · rintro rfl
    rfl

/-- A declaration in front of others is refused, or binds its name and leaves the rest to them. -/
theorem declares_cons (atRoot : root.isRoot = true) (nameLike : Binding.isNameLike b.name = true)
    {r : Except Fault Unit} : host.Declares root (b :: bs) w r w' ↔
      (∃ f last, host.Stops root b w f last w' ∧ r = .error f) ∨
        ∃ name v w₁ w₂, host.Exported root b w name v w₁ w₂ ∧ host.Declares root bs w₂ r w' := by
  constructor
  · intro declares
    cases declares with
    | noName refused =>
      refine Or.inl ?_
      obtain ⟨name, init⟩ := b
      cases name with
      | nil =>
        cases refused
        exact ⟨_, [], .nil rfl, rfl⟩
      | truth =>
        cases refused
        exact ⟨_, [], .truth rfl, rfl⟩
      | symbol => cases refused
      | number | list | callable => cases nameLike
    | defined named bound => exact Or.inl ⟨_, _, .bound (declaredName_eq_ok.mp named) bound, rfl⟩
    | fails named free direct =>
      exact Or.inl ⟨_, _, .fails (declaredName_eq_ok.mp named) free direct, rfl⟩
    | bindsNot named free direct refused =>
      refine Or.inl ?_
      obtain ⟨rfl, ⟨marker, rfl⟩ | ⟨plain, bound, rfl⟩⟩ := (World.bind_root_error atRoot).mp refused
      · exact ⟨_, _, .reserved (declaredName_eq_ok.mp named) free direct marker, rfl⟩
      · exact ⟨_, _, .taken (declaredName_eq_ok.mp named) free direct plain bound, rfl⟩
    | cons named free direct bound more =>
      obtain ⟨plain, still, rfl⟩ := (World.bind_root_ok atRoot).mp bound
      exact Or.inr ⟨_, _, _, _, .intro (declaredName_eq_ok.mp named) free direct plain still, more⟩
  · rintro (⟨f, last, stops, rfl⟩ | ⟨name, v, w₁, w₂, ⟨named, free, direct, plain, still⟩, more⟩)
    · cases stops with
      | nil named => exact .noName (congrArg Engine.declaredName named)
      | truth named => exact .noName (congrArg Engine.declaredName named)
      | bound named bound => exact .defined (declaredName_eq_ok.mpr named) bound
      | fails named free direct => exact .fails (declaredName_eq_ok.mpr named) free direct
      | reserved named free direct marker =>
        exact .bindsNot (declaredName_eq_ok.mpr named) free direct
          ((World.bind_root_error atRoot).mpr ⟨rfl, Or.inl ⟨marker, rfl⟩⟩)
      | taken named free direct plain bound =>
        exact .bindsNot (e := Fault.alreadyDefined _) (declaredName_eq_ok.mpr named) free direct
          ((World.bind_root_error atRoot).mpr ⟨rfl, Or.inr ⟨plain, bound, rfl⟩⟩)
    · exact .cons (declaredName_eq_ok.mpr named) free direct
        ((World.bind_root_ok atRoot).mpr ⟨plain, still, rfl⟩) more

/-- By induction on the declarations: the names in front of the first that is refused are bound. -/
theorem declares_iff (atRoot : root.isRoot = true)
    (nameLike : ∀ b ∈ bs, Binding.isNameLike b.name = true) {r : Except Fault Unit} :
    host.Declares root bs w r w' ↔
      (∃ done ran, host.Carries root bs w done ran w' ∧ r = .ok ()) ∨
        ∃ before b after done ran last w₁ f, bs = before ++ b :: after ∧
          host.Carries root before w done ran w₁ ∧ host.Stops root b w₁ f last w' ∧
          r = .error f := by
  induction bs generalizing w with
  | nil =>
    constructor
    · intro declares
      cases declares
      exact Or.inl ⟨[], [], .nil, rfl⟩
    · rintro (⟨done, ran, carries, rfl⟩ | ⟨before, b, after, _, _, _, _, _, same, -⟩)
      · cases carries
        exact .nil
      · cases before <;> cases same
  | cons b bs ih =>
    obtain ⟨first, others⟩ := List.forall_mem_cons.mp nameLike
    rw [declares_cons atRoot first]
    constructor
    · rintro (⟨f, last, stops, rfl⟩ | ⟨name, v, w₁, w₂, exported, more⟩)
      · exact Or.inr ⟨[], b, bs, [], [], last, w, f, rfl, .nil, stops, rfl⟩
      · rcases (ih others).mp more with ⟨done, ran, carries, rfl⟩ |
          ⟨before, b', after, done, ran, last, w₃, f, rfl, carries, stops, rfl⟩
        · exact Or.inl ⟨_, _, .cons exported carries, rfl⟩
        · exact Or.inr ⟨b :: before, b', after, _, _, last, w₃, f, rfl, .cons exported carries,
            stops, rfl⟩
    · rintro (⟨done, ran, carries, rfl⟩ |
        ⟨before, b', after, done, ran, last, w₃, f, same, carries, stops, rfl⟩)
      · cases carries with
        | cons exported carries =>
          exact Or.inr ⟨_, _, _, _, exported, (ih others).mpr (Or.inl ⟨_, _, carries, rfl⟩)⟩
      · cases before with
        | nil =>
          cases same
          cases carries
          exact Or.inl ⟨f, last, stops, rfl⟩
        | cons b'' before =>
          cases same
          cases carries with
          | cons exported carries =>
            refine Or.inr ⟨_, _, _, _, exported, (ih others).mpr (Or.inr ?_)⟩
            exact ⟨before, b', after, _, _, last, w₃, f, rfl, carries, stops, rfl⟩

/-- The form is resolved by doing what it should do at the root, wherever it stands. -/
theorem resolves_exports {cap : BacktraceCap} {r : Except Fault Resolved}
    (resolved : w.scopes.operator env operator = .ok (.form (.exports cap))) :
    host.Resolves env (Library.apply operator [v]) w r w' ↔
      ∃ r' done ran, host.Exports env.root v w r' done ran w' ∧
        r = r'.map fun _ => .value .truth := by
  have admitted : (Form.exports cap).arity.Admits [v].length := rfl
  rw [resolves_form resolved admitted]
  constructor
  · intro applies
    cases applies with
    | noBindings wrong => exact ⟨_, [], [], .malformed wrong, rfl⟩
    | exports read declares =>
      rcases (declares_iff env.root_isRoot (readAll_nameLike read)).mp declares with
        ⟨done, ran, carries, rfl⟩ | ⟨before, b, after, done, ran, last, w₁, f, rfl, carries, stops, rfl⟩
      · exact ⟨_, done, ran, .complete read carries, rfl⟩
      · exact ⟨_, done, ran ++ last, .stops read carries stops, rfl⟩
  · rintro ⟨r', done, ran, exports, rfl⟩
    cases exports with
    | malformed wrong => exact .noBindings wrong
    | complete read carries =>
      exact .exports read ((declares_iff env.root_isRoot (readAll_nameLike read)).mpr
        (Or.inl ⟨_, _, carries, rfl⟩))
    | stops read carries stops =>
      exact .exports read ((declares_iff env.root_isRoot (readAll_nameLike read)).mpr
        (Or.inr ⟨_, _, _, _, _, _, _, _, rfl, carries, stops, rfl⟩))

/-- Its value is truth. -/
theorem direct_exports {cap : BacktraceCap} {r : Except Fault Value}
    (resolved : w.scopes.operator env operator = .ok (.form (.exports cap))) :
    host.Direct env (Library.apply operator [v]) w r w' ↔
      ∃ r' done ran, host.Exports env.root v w r' done ran w' ∧ r = r'.map fun _ => .truth := by
  rw [direct_iff]
  simp only [resolves_exports resolved]
  constructor
  · rintro (⟨f, ⟨r', done, ran, exports, same⟩, rfl⟩ | ⟨t, w₁, ⟨r', done, ran, exports, same⟩, ends⟩)
    · cases r' with
      | error f' =>
        cases same
        exact ⟨_, done, ran, exports, rfl⟩
      | ok _ => cases same
    · cases r' with
      | error f' => cases same
      | ok _ =>
        cases same
        cases ends
        exact ⟨_, done, ran, exports, rfl⟩
  · rintro ⟨r', done, ran, exports, rfl⟩
    cases r' with
    | error f => exact Or.inl ⟨f, ⟨_, done, ran, exports, rfl⟩, rfl⟩
    | ok _ => exact Or.inr ⟨_, _, ⟨_, done, ran, exports, rfl⟩, .value⟩

/-! ### What is bound afterwards -/

/-- What a root binds once the form is done: the names that were bound, those that the form has bound,
and those that the expressions have bound by themselves. -/
structure Accounts (root : Environment) (done : List (String × Value))
    (ran : List (World σ × World σ)) (w w' : World σ) : Prop where
  bound : ∀ entry ∈ done, w'.scopes.local? root.scope entry.1 = some entry.2
  kept : ∀ name v, w.scopes.local? root.scope name = some v →
    w'.scopes.local? root.scope name = some v
  exactly : ∀ name, w'.scopes.binds root name = true ↔ w.scopes.binds root name = true ∨
    name ∈ done.map (·.1) ∨
      ∃ course ∈ ran, course.1.scopes.binds root name = false ∧
        course.2.scopes.binds root name = true

namespace Accounts

theorem refl : Accounts root [] [] w w :=
  ⟨nofun, fun _ _ => id, fun _ => ⟨Or.inl, fun bound => bound.elim id (by simp)⟩⟩

/-- What is bound in two stages is what is bound in the one or the other. -/
theorem trans {done' : List (String × Value)} {ran' : List (World σ × World σ)}
    (first : Accounts root done ran w w₁) (second : Accounts root done' ran' w₁ w') :
    Accounts root (done ++ done') (ran ++ ran') w w' where
  bound entry member := by
    rcases List.mem_append.mp member with early | late
    · exact second.kept _ _ (first.bound entry early)
    · exact second.bound entry late
  kept name v found := second.kept name v (first.kept name v found)
  exactly name := by
    rw [second.exactly, first.exactly]
    simp only [List.map_append, List.mem_append, or_and_right, exists_or, or_assoc]
    exact or_congr_right (or_congr_right or_left_comm)

/-- An evaluation on its own. -/
theorem evaluated (atRoot : roots root.scope) (follows : w.Follows roots children keeps w') :
    Accounts root [] [(w, w')] w w' where
  bound := nofun
  kept name v := follows.kept.bound atRoot
  exactly name := by
    simp only [List.map_nil, List.not_mem_nil, false_or, List.mem_singleton, exists_eq_left]
    cases before : w.scopes.binds root name with
    | false => simp
    | true =>
      rw [Scopes.binds_eq] at before ⊢
      obtain ⟨v, found⟩ := Option.isSome_iff_exists.mp before
      simp [follows.kept.bound atRoot found]

/-- A name on its own. -/
theorem defined (opened : root.scope < w.scopes.tables.size)
    (free : w.scopes.binds root name = false) : Accounts root [(name, v)] [] w
      { w with scopes := w.scopes.define root.scope name v } where
  bound entry member := by
    obtain rfl := List.mem_singleton.mp member
    exact Scopes.local?_define.trans (if_pos ⟨rfl, rfl, opened⟩)
  kept other u found := by
    refine Scopes.local?_define.trans ((if_neg ?_).trans found)
    rintro ⟨-, rfl, -⟩
    rw [Scopes.binds_eq, found] at free
    cases free
  exactly other := by
    simp only [Scopes.binds_eq, Scopes.local?_define, opened, true_and, and_true, List.map_cons,
      List.map_nil, List.mem_singleton, List.not_mem_nil, false_and, exists_false, or_false]
    split
    · simp_all
    · simp_all

end Accounts

theorem Exported.accounts (writes : host.Writes roots children keeps) (sound : w.Sound roots keeps)
    (genuine : root.Genuine roots w.scopes) (atRoot : root.isRoot = true)
    (held : b.init.Held roots w.scopes) (exported : host.Exported root b w name v w₁ w') :
    w.Follows roots children keeps w' ∧ Accounts root [(name, v)] [(w, w₁)] w w' := by
  obtain ⟨-, -, direct, plain, free⟩ := exported
  obtain ⟨before, value⟩ := direct.steadfast writes sound genuine held
  have inRoot : roots root.scope := genuine.root_of_isRoot atRoot
  have bound : w₁.bind root name v =
      (.ok (), { w₁ with scopes := w₁.scopes.define root.scope name v }) :=
    (World.bind_root_ok atRoot).mpr ⟨plain, free, rfl⟩
  obtain ⟨kept, after⟩ := World.Sound.bind before.sound writes (Or.inl atRoot)
    (before.genuine genuine) (value v rfl)
  rw [bound] at kept after
  have opened : root.scope < w₁.scopes.tables.size := before.sound.scopes.opened inRoot
  exact ⟨before.trans sound ⟨kept, after⟩,
    (Accounts.evaluated inRoot before).trans (.defined opened free)⟩

theorem Stops.accounts (writes : host.Writes roots children keeps) (sound : w.Sound roots keeps)
    (genuine : root.Genuine roots w.scopes) (atRoot : root.isRoot = true)
    (held : b.init.Held roots w.scopes) (stops : host.Stops root b w f last w') :
    Accounts root [] last w w' := by
  cases stops with
  | nil | truth | bound => exact .refl
  | fails _ _ direct | reserved _ _ direct | taken _ _ direct =>
    exact .evaluated (genuine.root_of_isRoot atRoot) (direct.steadfast writes sound genuine held).1

/-- By induction on the names that are bound. -/
theorem Carries.accounts (writes : host.Writes roots children keeps) (sound : w.Sound roots keeps)
    (genuine : root.Genuine roots w.scopes) (atRoot : root.isRoot = true)
    (held : ∀ b ∈ bs, b.init.Held roots w.scopes) (carries : host.Carries root bs w done ran w') :
    w.Follows roots children keeps w' ∧ Accounts root done ran w w' := by
  induction carries with
  | nil => exact ⟨.refl sound, .refl⟩
  | cons exported _ ih =>
    obtain ⟨first, others⟩ := List.forall_mem_cons.mp held
    obtain ⟨follows, now⟩ := exported.accounts writes sound genuine atRoot first
    obtain ⟨later, rest⟩ := ih follows.sound (follows.genuine genuine) fun b member =>
      follows.held (others b member)
    exact ⟨follows.trans sound later, now.trans rest⟩

theorem Exports.accounts (writes : host.Writes roots children keeps) (sound : w.Sound roots keeps)
    (genuine : root.Genuine roots w.scopes) (atRoot : root.isRoot = true)
    (held : v.Held roots w.scopes) {r : Except Fault Unit}
    (exports : host.Exports root v w r done ran w') : Accounts root done ran w w' := by
  have inits {bs : List Binding} (read : Binding.readAll v = .ok bs) :
      ∀ b ∈ bs, b.init.Held roots w.scopes := by
    have related := Binding.readAll_alike held
    rw [read] at related
    cases related with
    | ok same => exact fun b member => (List.forall₂_same.mp same b member).init
  cases exports with
  | malformed => exact .refl
  | complete read carries => exact (carries.accounts writes sound genuine atRoot (inits read)).2
  | stops read carries stops =>
    obtain ⟨front, rest⟩ := List.forall_mem_append.mp (inits read)
    obtain ⟨follows, now⟩ := carries.accounts writes sound genuine atRoot front
    have refused := follows.held (rest _ List.mem_cons_self)
    have after := stops.accounts writes follows.sound (follows.genuine genuine) atRoot refused
    have whole := now.trans after
    rwa [List.append_nil] at whole

/-! ### The form ends -/

/-- By induction on the declarations: if each expression that is come to has a result, all names are
bound or one of them is refused. -/
theorem carries_or_stops (nameLike : ∀ b ∈ bs, Binding.isNameLike b.name = true)
    (inits : ∀ before b after done ran w₁ name, bs = before ++ b :: after →
      host.Carries root before w done ran w₁ → b.name = .symbol name →
      w₁.scopes.binds root name = false → ∃ r w₂, host.Direct root b.init w₁ r w₂) :
    (∃ done ran w', host.Carries root bs w done ran w') ∨
      ∃ before b after done ran last w₁ f w', bs = before ++ b :: after ∧
        host.Carries root before w done ran w₁ ∧ host.Stops root b w₁ f last w' := by
  induction bs generalizing w with
  | nil => exact Or.inl ⟨[], [], w, .nil⟩
  | cons b bs ih =>
    obtain ⟨first, others⟩ := List.forall_mem_cons.mp nameLike
    have refused {f : Fault} {last : List (World σ × World σ)} {w' : World σ}
        (stops : host.Stops root b w f last w') :
        ∃ before b' after done ran last w₁ f w', b :: bs = before ++ b' :: after ∧
          host.Carries root before w done ran w₁ ∧ host.Stops root b' w₁ f last w' :=
      ⟨[], b, bs, [], [], last, w, f, w', rfl, .nil, stops⟩
    cases named : b.name with
    | nil => exact Or.inr (refused (.nil named))
    | truth => exact Or.inr (refused (.truth named))
    | number | list | callable =>
      rw [named] at first
      cases first
    | symbol name =>
      cases free : w.scopes.binds root name with
      | true => exact Or.inr (refused (.bound named free))
      | false =>
        obtain ⟨r, w₁, direct⟩ := inits [] b bs [] [] w name rfl .nil named free
        cases r with
        | error f => exact Or.inr (refused (.fails named free direct))
        | ok v =>
          cases plain : Symbol.isReserved name with
          | true => exact Or.inr (refused (.reserved named free direct plain))
          | false =>
            cases still : w₁.scopes.binds root name with
            | true => exact Or.inr (refused (.taken named free direct plain still))
            | false =>
              have exported := Exported.intro named free direct plain still
              rcases ih others fun before b' after done ran w₂ name' same carries =>
                  inits (b :: before) b' after _ _ w₂ name' (congrArg (b :: ·) same)
                    (.cons exported carries) with
                ⟨done, ran, w', carries⟩ |
                  ⟨before, b', after, done, ran, last, w₂, f, w', rfl, carries, stops⟩
              · exact Or.inl ⟨_, _, w', .cons exported carries⟩
              · exact Or.inr ⟨b :: before, b', after, _, _, last, w₂, f, w', rfl,
                  .cons exported carries, stops⟩

/-! ### All of it -/

/-- A malformed item keeps all items from being read. -/
theorem readAll_malformed {items : List Value} {item : Value} {e : Error}
    (listed : v.toList? = some items) (member : item ∈ items)
    (malformed : Binding.read item = .error e) : ∃ e', Binding.readAll v = .error e' := by
  simp only [Binding.readAll, listed]
  induction items generalizing v with
  | nil => cases member
  | cons first items ih =>
    rw [List.mapM_cons]
    rcases List.mem_cons.mp member with rfl | later
    · exact ⟨e, by rw [malformed]; rfl⟩
    · obtain ⟨e', refused⟩ := ih (v := .list items) rfl later
      cases read : Binding.read first with
      | error e'' => exact ⟨e'', rfl⟩
      | ok b => exact ⟨e', by rw [refused]; rfl⟩

/-- A form that declares names binds a prefix of them and nothing else. It does, at the root and
wherever it is compiled, what it should do; if an item is malformed it fails and changes nothing; what
the root binds afterwards is what it has bound before, the names in front of the refused one with the
values of their expressions, and what the expressions have bound by themselves; and it comes to an end
if they do. -/
theorem Sound.exports_prefix (sound : host.Sound) (writes : host.Writes roots children keeps)
    (start : w.Sound roots keeps) (genuine : env.Genuine roots w.scopes)
    (held : v.Held roots w.scopes) {cap : BacktraceCap}
    (resolved : w.scopes.operator env operator = .ok (.form (.exports cap))) (cap' : BacktraceCap) :
    (∀ r w', host.Resolves env (Library.apply operator [v]) w r w' ↔
      ∃ r' done ran, host.Exports env.root v w r' done ran w' ∧
        r = r'.map fun _ => .value .truth) ∧
    (∀ r w', host.EndsWith env (Library.apply operator [v]) cap' w r w' ↔
      ∃ r' done ran, host.Exports env.root v w r' done ran w' ∧ r = r'.map fun _ => .truth) ∧
    (∀ items item e, v.toList? = some items → item ∈ items → Binding.read item = .error e →
      ∀ r w', host.EndsWith env (Library.apply operator [v]) cap' w r w' →
        (∃ f, r = .error f) ∧ w' = w) ∧
    (∀ r done ran w', host.Exports env.root v w r done ran w' →
      Accounts env.root done ran w w') ∧
    ((∀ before b after done ran w₁ name, Binding.readAll v = .ok (before ++ b :: after) →
        host.Carries env.root before w done ran w₁ → b.name = .symbol name →
        w₁.scopes.binds env.root name = false → ∃ r w₂, host.Direct env.root b.init w₁ r w₂) →
      ∃ r w', host.EndsWith env (Library.apply operator [v]) cap' w r w') := by
  have ends {r : Except Fault Value} {w' : World σ} :
      host.EndsWith env (Library.apply operator [v]) cap' w r w' ↔
        ∃ r' done ran, host.Exports env.root v w r' done ran w' ∧ r = r'.map fun _ => .truth :=
    (evaluateOnce_eq_direct sound ..).trans (direct_exports resolved)
  refine ⟨fun r w' => resolves_exports resolved, fun r w' => ends, ?_, ?_, fun inits => ?_⟩
  · intro items item e listed member malformed r w' ended
    obtain ⟨e', refused⟩ := readAll_malformed listed member malformed
    obtain ⟨r', done, ran, exports, rfl⟩ := ends.mp ended
    cases exports with
    | malformed => exact ⟨⟨_, rfl⟩, rfl⟩
    | complete read => cases refused.symm.trans read
    | stops read => cases refused.symm.trans read
  · exact fun r done ran w' exports =>
      exports.accounts writes start genuine.root env.root_isRoot held
  · cases read : Binding.readAll v with
    | error e => exact ⟨_, _, ends.mpr ⟨_, _, _, .malformed read, rfl⟩⟩
    | ok bindings =>
      rcases carries_or_stops (readAll_nameLike read) (fun before b after done ran w₁ name same =>
          inits before b after done ran w₁ name (same ▸ read)) with
        ⟨done, ran, w', carries⟩ |
          ⟨before, b, after, done, ran, last, w₁, f, w', rfl, carries, stops⟩
      · exact ⟨_, w', ends.mpr ⟨_, _, _, .complete read carries, rfl⟩⟩
      · exact ⟨_, w', ends.mpr ⟨_, _, _, .stops read carries stops, rfl⟩⟩

end Host

namespace Extension

/-- `((a t) (b (export ((c a)))) (d k) (e t))` -/
def declarations : Value :=
  .list [.list [.symbol "a", .truth],
    .list [.symbol "b", .list [.symbol "export", .list [.list [.symbol "c", .symbol "a"]]]],
    .list [.symbol "d", .symbol "k"], .list [.symbol "e", .truth]]

theorem declarations_held {scopes : Scopes} : declarations.Held freshRoots scopes := by
  have binds (name : String) {init : Value} (held : init.Held freshRoots scopes) :
      Value.Held freshRoots scopes (.list [.symbol name, init]) :=
    .list (.cons (.symbol name) (.cons held .nil))
  have inner : Value.Held freshRoots scopes
      (.list [.symbol "export", .list [.list [.symbol "c", .symbol "a"]]]) :=
    .list (.cons (.symbol _) (.cons (.list (.cons (binds "c" (.symbol _)) .nil)) .nil))
  exact .list (.cons (binds "a" .truth) (.cons (binds "b" inner)
    (.cons (binds "d" (.symbol _)) (.cons (binds "e" .truth) .nil))))

end Extension

open Extension in
/-- Declared where `k` has a value, the third name is refused, for the root does not see it. The first
two are bound, and so is the one that the second expression declares. -/
theorem Host.exports_prefix_local :
    (Host.none Log).Sound ∧ (Host.none Log).Writes freshRoots False (fun _ _ => True) ∧
    World.Sound freshRoots (fun _ _ => True) shadowing.2 ∧
    shadowing.1.Genuine freshRoots shadowing.2.scopes ∧
    declarations.Held freshRoots shadowing.2.scopes ∧
    shadowing.2.scopes.operator shadowing.1 (.symbol "export") = .ok (.form (.exports 10)) ∧
    ∃ done ran w', (Host.none Log).Exports shadowing.1.root declarations shadowing.2
        (.error (.unbound "k")) done ran w' ∧
      Host.Accounts shadowing.1.root done ran shadowing.2 w' ∧
      (["a", "b", "c", "d", "e"].map fun name => w'.scopes.binds shadowing.1.root name) =
        [true, true, true, false, false] := by
  obtain ⟨sound, genuine⟩ := shadowing_sound
  have resolved : shadowing.2.scopes.operator shadowing.1 (.symbol "export") =
      .ok (.form (.exports 10)) := rfl
  have writes : (Host.none Log).Writes freshRoots False fun _ _ => True := none_writes
  obtain ⟨-, whole, -, accounts, -⟩ := Host.Sound.exports_prefix none_sound writes sound genuine
    declarations_held resolved 10
  refine ⟨none_sound, writes, sound, genuine, declarations_held, resolved, ?_⟩
  obtain ⟨r', done, ran, exports, same⟩ :=
    (whole (.error (.unbound "k")) _).mp ⟨_, ⟨20, rfl⟩, rfl⟩
  cases r' with
  | ok _ => cases same
  | error f =>
    cases same
    exact ⟨done, ran, _, exports, accounts _ _ _ _ exports, rfl⟩

open Extension in
/-- A symbol that is spelled as a marker is refused only after its expression has been evaluated. -/
theorem Host.spelled_marker_evaluates : ∃ w',
    (Host.none Log).EndsWith fresh.1.root (Library.apply (.symbol "export")
      [.list [.list [.symbol "t", .list [.symbol "export", .list [.list [.symbol "z", .truth]]]]]])
      10 fresh.2 (.error (.reserved "t")) w' ∧
    fresh.2.scopes.binds fresh.1.root "z" = false ∧ w'.scopes.binds fresh.1.root "z" = true :=
  ⟨_, ⟨_, ⟨20, rfl⟩, rfl⟩, rfl, rfl⟩

end CooperativeLisp

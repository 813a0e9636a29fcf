import CooperativeLisp.Proofs.BindingForms
import CooperativeLisp.Proofs.Printing
import CooperativeLisp.Proofs.Totality

/-!
Reserved names in the places of names. A binding form does not look at its names; it relies on the list
of parameters that it becomes. There the nil and the true marker are refused wherever they stand, before
any expression is evaluated. The rest marker is syntax there: with at most one name behind it, it is
accepted and says what becomes of the values behind it. Declarations refuse all three.
-/

namespace CooperativeLisp

variable {σ : Type}

/-- The reserved name that a value in the place of a name is. -/
def Value.marker? : Value → Option String
  | .nil => some Symbol.nilName
  | .truth => some Symbol.truthName
  | .symbol name => if Symbol.isReserved name then some name else none
  | _ => none

/-- No operator in an expression stands for the form that declares names, nor for a form or an expander
of the host. -/
def Value.Undeclaring (scopes : Scopes) (env : Environment) (e : Value) : Prop :=
  e.Every fun v => ∀ c, scopes.operator env v = .ok c → c.IsFunction ∨ c.IsCore

/-- What follows the rest marker. -/
def Rest.behind : Option String → Rest
  | none => .discarded
  | some name => .named name

/-- Names among which the rest marker is accepted: it is the only reserved name, and at most one name
stands behind it. -/
inductive Symbol.Slips : List Value → Prop
  | intro (before : List String) (behind : Option String) :
      (∀ name ∈ before ++ behind.toList, isReserved name = false) →
      Slips (before.map Value.symbol ++
        .symbol restMarker :: behind.toList.map Value.symbol)

/-! ### Lists of parameters -/

namespace LambdaList

variable {seen : List String} {vs : List Value} {l : LambdaList}

theorem nameOf_ok {otherwise : Value → TypeFault} {v : Value} {name : String}
    (read : nameOf otherwise v = .ok name) : v = .symbol name := by
  cases v <;> cases read
  rfl

/-- What may follow the rest marker. -/
theorem readRest_ok {rest : Rest} (read : readRest seen vs = .ok rest) :
    ∃ behind : Option String, vs = behind.toList.map Value.symbol ∧ rest = .behind behind ∧
      ∀ name ∈ behind.toList, Symbol.isReserved name = false := by
  cases vs with
  | nil =>
    cases read
    exact ⟨none, rfl, rfl, nofun⟩
  | cons v more =>
    obtain ⟨name, named, tail⟩ := Error.of_bind_ok read
    obtain rfl := nameOf_ok named
    dsimp only at tail
    split at tail
    · cases tail
    rename_i free
    split at tail
    · cases tail
    split at tail
    · cases tail
    · cases tail
      refine ⟨some name, rfl, rfl, fun other single => ?_⟩
      rw [List.mem_singleton.mp single]
      exact Bool.eq_false_iff.mpr free

/-- A list of parameters that is accepted has no reserved name but the rest marker. -/
theorem readAfter_ok (read : readAfter seen vs = .ok l) :
    (∀ v ∈ vs, v.marker? = none) ∨ Symbol.Slips vs := by
  induction vs generalizing seen with
  | nil => exact Or.inl nofun
  | cons v more ih =>
    obtain ⟨name, named, tail⟩ := Error.of_bind_ok read
    obtain rfl := nameOf_ok named
    split at tail
    · rename_i isRest
      obtain rfl := eq_of_beq isRest
      obtain ⟨rest, last, -⟩ := Error.of_bind_ok tail
      obtain ⟨behind, rfl, -, free⟩ := readRest_ok last
      exact Or.inr (.intro [] behind free)
    dsimp only at tail
    split at tail
    · cases tail
    rename_i free
    split at tail
    · cases tail
    have first : (Value.symbol name).marker? = none := if_neg free
    rcases ih tail with others | ⟨before, behind, frees⟩
    · exact Or.inl (List.forall_mem_cons.mpr ⟨first, others⟩)
    · refine Or.inr (.intro (name :: before) behind (List.forall_mem_cons.mpr ⟨?_, frees⟩))
      exact Bool.eq_false_iff.mpr free

/-- A marker other than that of the rest is refused in the place of a name. -/
theorem readAfter_marker {v : Value} {more : List Value} {text : String}
    (marker : v.marker? = some text) (other : text ≠ Symbol.restMarker) :
    readAfter seen (v :: more) = .error (Fault.reserved text) := by
  cases v with
  | nil =>
    cases marker
    rfl
  | truth =>
    cases marker
    rfl
  | symbol name =>
    by_cases reserved : Symbol.isReserved name = true
    · obtain rfl := Option.some.inj ((if_pos reserved).symm.trans marker)
      have notRest : (name == Symbol.restMarker) = false := beq_false_of_ne other
      simp only [readAfter, nameOf, bind, Except.bind, notRest, reserved, Bool.false_eq_true,
        if_false, if_true]
      rfl
    · rw [Value.marker?, if_neg reserved] at marker
      cases marker
  | number | list | callable => cases marker

/-- The rest marker, with one name behind it or none, ends a list of parameters. -/
theorem readAfter_rest {behind : Option String}
    (free : ∀ name ∈ behind.toList, Symbol.isReserved name = false)
    (fresh : ∀ name ∈ behind.toList, name ∉ seen) :
    readAfter seen (.symbol Symbol.restMarker :: behind.toList.map Value.symbol) =
      .ok ⟨seen.reverse, .behind behind⟩ := by
  cases behind with
  | none => rfl
  | some name =>
    have unseen : seen.contains name = false := by
      simpa using fresh name (List.mem_singleton_self name)
    have unreserved := free name (List.mem_singleton_self name)
    show readAfter seen [.symbol Symbol.restMarker, .symbol name] = _
    simp only [readAfter, nameOf, readRest, bind, Except.bind, beq_self_eq_true, if_true, unreserved,
      unseen, Bool.false_eq_true, if_false, pure, Except.pure]
    rfl

/-- The running closure, names that may be bound together and the rest marker with a name behind it or
none are a list of parameters. -/
theorem read_rest {before : List String} {behind : Option String}
    (bindable : Symbol.Bindable (before ++ behind.toList)) :
    read (.list (Library.self :: (before.map Value.symbol ++
      .symbol Symbol.restMarker :: behind.toList.map Value.symbol))) =
        .ok ⟨Symbol.selfName :: before, .behind behind⟩ := by
  obtain ⟨distinct, free, other⟩ := bindable
  obtain ⟨first, -, apart⟩ := List.nodup_append.mp distinct
  have unseen : ∀ name ∈ before ++ behind.toList, name ∉ [Symbol.selfName] := by
    intro name member twice
    exact other (List.mem_singleton.mp twice ▸ member)
  have fresh : ∀ name ∈ behind.toList, name ∉ before.reverse ++ [Symbol.selfName] := by
    intro name member twice
    rcases List.mem_append.mp twice with earlier | self
    · exact apart name (List.mem_reverse.mp earlier) name member rfl
    · exact unseen name (List.mem_append_right _ member) self
  rw [read_self, readAfter_names first (fun name member => free name (List.mem_append_left _ member))
    (fun name member => unseen name (List.mem_append_left _ member)),
    readAfter_rest (fun name member => free name (List.mem_append_right _ member)) fresh]
  simp

end LambdaList

namespace Host

variable {host : Host σ} {env : Environment} {e operator bs : Value} {body operands : List Value}
variable {bindings : List Binding} {w w' : World σ}

/-! ### Binding at once -/

/-- An expression fails while it is compiled, for this cause: the run of its stream ends at the first
frame, without an invocation and whatever the bound on its backtrace, and no scope is changed. -/
def Rejects (host : Host σ) (env : Environment) (e : Value) (w : World σ) (f : Fault) : Prop :=
  ∃ s w', host.Answers (·.compile env e) w s w' ∧ w'.scopes = w.scopes ∧ ∀ cap, ∃ error,
    error.fault = f ∧ host.Reaches 1 [] (.pending (.start s cap)) w' (.done (.error error)) w' ∧
      host.Answers (·.evaluateOnce env e cap) w (.error error) w'

theorem Resolves.rejects {f : Fault} (resolves : host.Resolves env e w (.error f) w')
    (same : w'.scopes = w.scopes) : host.Rejects env e w f := by
  obtain ⟨s, compiled, -, error, rest, frames, cause⟩ := resolves.places.compile
  refine ⟨s, w', compiled, same, fun cap => ⟨error.withTrace [] (max cap 1), cause, ?_⟩⟩
  have start : Machine.start s cap = ⟨.error error :: rest, [], [], max cap 1⟩ := by
    rw [Machine.start, frames]
  have reach : host.Reaches 1 [] (.pending (.start s cap)) w'
      (.done (.error (error.withTrace [] (max cap 1)))) w' := by
    rw [start]
    exact .step (steps_error.mpr ⟨rfl, rfl⟩) .refl
  exact ⟨reach, evaluateOnce_iff.mpr ⟨s, w', compiled, 1, [], reach⟩⟩

theorem Resolvable.of_undeclaring {scopes : Scopes} (undeclaring : e.Undeclaring scopes env) :
    host.Resolvable scopes env e :=
  .of_parts (P := (·.Undeclaring scopes env))
    (fun whole member _ inside => whole _ (.item member inside))
    (fun operator resolved => operator _ .self _ resolved) undeclaring

/-- If the names are refused as parameters, `let` is rejected, at the latest for that. -/
theorem let_rejects {error : Error}
    (resolved : w.scopes.operator env operator = .ok (.expander .parallelLet))
    (read : Binding.readAll bs = .ok bindings)
    (inits : ∀ b ∈ bindings, host.Resolvable w.scopes env b.init)
    (refused : LambdaList.read (.list (Library.self :: bindings.map (·.name))) = .error error)
    (body : List Value) :
    ∃ f, host.Rejects env (Library.apply operator (bs :: body)) w f ∧
      ((w.scopes.get? env Symbol.selfName).isSome →
        (∀ f w', ¬ host.ResolvesAll env (bindings.map (·.init)) w (.error f) w') →
        f = error.fault) := by
  have expands {f : Fault} {w' : World σ} (expanded : host.Resolves env
      (Library.parallelLet bindings body) w (.error f) w') (same : w'.scopes = w.scopes) :
      host.Rejects env (Library.apply operator (bs :: body)) w f :=
    ((resolves_expansion resolved (expansion_parallelLet read)).mpr expanded).rejects same
  have resolvable : ∀ e ∈ bindings.map (·.init), host.Resolvable w.scopes env e :=
    List.forall_mem_map.mpr inits
  obtain ⟨r, w₁, all, same⟩ := resolvesAll_total resolvable w rfl
  cases r with
  | error f =>
    refine ⟨f, expands (resolves_applied.mpr (Or.inl ⟨f, .fails all, rfl⟩)) same, ?_⟩
    exact fun _ compile => absurd all (compile f w₁)
  | ok ts =>
    cases found : w₁.scopes.get? env Symbol.selfName with
    | none =>
      have self : host.Resolves env Library.self w₁ (.error (.unbound Symbol.selfName)) w₁ :=
        .unbound (by decide) (by decide) found
      refine ⟨_, expands (resolves_applied.mpr (Or.inl ⟨_, .cons all self, rfl⟩)) same, ?_⟩
      intro bound
      rw [← same, found] at bound
      cases bound
    | some own =>
      have self : host.Resolves env Library.self w₁ (.ok (.value own)) w₁ :=
        .symbol (by decide) (by decide) found
      have operands : host.ResolvesAll env (Library.self :: bindings.map (·.init)) w
          (.ok (.value own :: ts)) w₁ := .cons all self
      have resolves : host.Resolves env (Library.parallelLet bindings body) w (.error error.fault)
          w₁.identified := by
        refine resolves_applied.mpr (Or.inr ⟨_, w₁, operands, rfl, ?_⟩)
        simp only [Closure.make, refused]
        rfl
      exact ⟨error.fault, expands resolves same, fun _ _ => rfl⟩

/-- Where the rest marker does not slip through, any reserved name is enough for that. -/
theorem let_rejects_marker
    (resolved : w.scopes.operator env operator = .ok (.expander .parallelLet))
    (read : Binding.readAll bs = .ok bindings)
    (inits : ∀ b ∈ bindings, host.Resolvable w.scopes env b.init)
    (marked : ∃ b ∈ bindings, b.name.marker?.isSome)
    (other : ¬ Symbol.Slips (bindings.map (·.name))) (body : List Value) :
    ∃ f, host.Rejects env (Library.apply operator (bs :: body)) w f := by
  cases names : LambdaList.read (.list (Library.self :: bindings.map (·.name))) with
  | error error =>
    obtain ⟨f, rejects, -⟩ := let_rejects resolved read inits names body
    exact ⟨f, rejects⟩
  | ok l =>
    rw [LambdaList.read_self] at names
    obtain ⟨b, member, marker⟩ := marked
    rcases LambdaList.readAfter_ok names with none | slips
    · rw [none b.name (List.mem_map_of_mem member)] at marker
      cases marker
    · exact absurd slips other

/-- If nothing else is wrong, a nil or a true marker is what is reported. -/
theorem let_reports_marker {before : List String} {marker : Value} {after : List Value}
    {text : String}
    (resolved : w.scopes.operator env operator = .ok (.expander .parallelLet))
    (read : Binding.readAll bs = .ok bindings)
    (inits : ∀ b ∈ bindings, host.Resolvable w.scopes env b.init)
    (names : bindings.map (·.name) = before.map Value.symbol ++ marker :: after)
    (bindable : Symbol.Bindable before) (marked : marker.marker? = some text)
    (notRest : text ≠ Symbol.restMarker)
    (bound : (w.scopes.get? env Symbol.selfName).isSome)
    (compile : ∀ f w', ¬ host.ResolvesAll env (bindings.map (·.init)) w (.error f) w')
    (body : List Value) :
    host.Rejects env (Library.apply operator (bs :: body)) w (.reserved text) := by
  have fresh : ∀ name ∈ before, name ∉ [Symbol.selfName] := by
    intro name member twice
    exact bindable.other (List.mem_singleton.mp twice ▸ member)
  have refused : LambdaList.read (.list (Library.self :: bindings.map (·.name))) =
      .error (Fault.reserved text) := by
    rw [LambdaList.read_self, names,
      LambdaList.readAfter_names bindable.distinct bindable.free fresh,
      LambdaList.readAfter_marker marked notRest]
  obtain ⟨f, rejects, cause⟩ := let_rejects resolved read inits refused body
  obtain rfl : f = .reserved text := cause bound compile
  exact rejects

/-- The rest marker with at most one name behind it opens the scope that the parameters say. -/
theorem direct_let_rest {before : List String} {behind : Option String} {r : Except Fault Value}
    (resolved : w.scopes.operator env operator = .ok (.expander .parallelLet))
    (read : Binding.readAll bs = .ok bindings)
    (names : bindings.map (·.name) = before.map Value.symbol ++
      .symbol Symbol.restMarker :: behind.toList.map Value.symbol)
    (bindable : Symbol.Bindable (before ++ behind.toList)) :
    host.Direct env (Library.apply operator (bs :: body)) w r w' ↔
      host.Opens env (Library.self :: bindings.map (·.init))
        (LambdaList.entries ⟨Symbol.selfName :: before, .behind behind⟩)
        (fun scope => host.InTurn scope body) w r w' := by
  have params : LambdaList.read (.list (Library.self :: bindings.map (·.name))) =
      .ok ⟨Symbol.selfName :: before, .behind behind⟩ := by
    rw [names]
    exact LambdaList.read_rest bindable
  rw [inTurn_eq, ← direct_applied params]
  exact direct_congr (resolves_expansion resolved (expansion_parallelLet read))

/-! ### Binding in turn -/

/-- A function whose parameters are refused fails, whatever its body is. -/
theorem refused_fails {params : List Value} {error : Error} {r : Except Fault Value}
    (refused : LambdaList.read (.list params) = .error error)
    (direct : host.Direct env (Library.apply (Library.lambda params body) operands) w r w') :
    (∃ f, r = .error f) ∧
      ∀ body, host.Direct env (Library.apply (Library.lambda params body) operands) w r w' := by
  have makes (closures : Nat) (body : Value) :
      Closure.make closures (.list params) body env = .error error := by
    simp only [Closure.make, refused]
  rcases direct_iff.mp direct with ⟨f, resolves, rfl⟩ | ⟨t, w₁, resolves, -⟩
  · refine ⟨⟨f, rfl⟩, fun body' => .fails (resolves_applied.mpr ?_)⟩
    refine (resolves_applied.mp resolves).imp_right ?_
    rintro ⟨ts, w₁, all, rfl, tree⟩
    rw [makes] at tree
    refine ⟨ts, w₁, all, rfl, ?_⟩
    rw [tree, makes]
    rfl
  · rcases resolves_applied.mp resolves with ⟨f, -, same⟩ | ⟨ts, w₂, -, -, tree⟩
    · cases same
    · rw [makes] at tree
      cases tree

/-- If all that may stand inside fails, and does so in any other's place, then so does the whole. -/
theorem Opens.fails_alike {ι : Type} {entries : List Value → List (String × Value)}
    {inside : Environment → World σ → Except Fault Value → World σ → Prop}
    {other : ι → Environment → World σ → Except Fault Value → World σ → Prop}
    {r : Except Fault Value} (opens : host.Opens env operands entries inside w r w')
    (alike : ∀ {scope w r w'}, inside scope w r w' →
      (∃ f, r = .error f) ∧ ∀ i, other i scope w r w') :
    (∃ f, r = .error f) ∧ ∀ i, host.Opens env operands entries (other i) w r w' := by
  cases opens with
  | unresolved all => exact ⟨⟨_, rfl⟩, fun _ => .unresolved all⟩
  | fails all values => exact ⟨⟨_, rfl⟩, fun _ => .fails all values⟩
  | enters all values direct =>
    obtain ⟨failed, others⟩ := alike direct
    exact ⟨failed, fun i => .enters all values (others i)⟩

theorem direct_single {b : Binding} {r : Except Fault Value}
    (nameLike : Binding.isNameLike b.name = true) :
    host.Direct env (Library.letForm [b] body) w r w' ↔
      host.Direct env (Library.parallelLet [b] body) w r w' :=
  direct_congr (resolves_expansion (x := .parallelLet) rfl
    (expansion_parallelLet (readAll_single nameLike)))

/-- With a nil or a true marker among the names, `let*` fails, and its body makes no difference. By
induction on the names in front of the marker. -/
theorem serialLet_fails {r : Except Fault Value}
    (nameLike : ∀ b ∈ bindings, Binding.isNameLike b.name = true)
    (marked : ∃ b ∈ bindings, ∃ text, b.name.marker? = some text ∧ text ≠ Symbol.restMarker)
    (direct : host.Direct env (Library.serialLet bindings body) w r w') :
    (∃ f, r = .error f) ∧
      ∀ body, host.Direct env (Library.serialLet bindings body) w r w' := by
  induction bindings generalizing env w r w' with
  | nil =>
    obtain ⟨b, member, -⟩ := marked
    cases member
  | cons b bindings ih =>
    have named := nameLike b List.mem_cons_self
    cases read : LambdaList.read (.list [Library.self, b.name]) with
    | error error =>
      -- what stands inside is the body or the form for the other names
      by_cases last : bindings = []
      · subst last
        obtain ⟨failed, others⟩ := refused_fails read ((direct_single named).mp direct)
        exact ⟨failed, fun body' => (direct_single named).mpr (others body')⟩
      · rw [serialLet_cons last] at direct
        obtain ⟨failed, others⟩ := refused_fails read ((direct_single named).mp direct)
        refine ⟨failed, fun body' => ?_⟩
        rw [serialLet_cons last]
        exact (direct_single named).mpr (others _)
    | ok l =>
      have later : ∃ b ∈ bindings, ∃ text, b.name.marker? = some text ∧
          text ≠ Symbol.restMarker := by
        obtain ⟨other, member, text, marker, notRest⟩ := marked
        rcases List.mem_cons.mp member with rfl | member
        · rw [LambdaList.read_self, LambdaList.readAfter_marker marker notRest] at read
          cases read
        · exact ⟨other, member, text, marker, notRest⟩
      have more : bindings ≠ [] := by
        rintro rfl
        obtain ⟨_, member, -⟩ := later
        cases member
      rw [serialLet_cons more] at direct
      have opens := (direct_applied read).mp ((direct_single named).mp direct)
      have inside {scope : Environment} {w : World σ} {r : Except Fault Value} {w' : World σ}
          (direct : host.Direct scope (Library.serialLet bindings body) w r w') :
          (∃ f, r = .error f) ∧
            ∀ body, host.Direct scope (Library.serialLet bindings body) w r w' :=
        ih (fun b member => nameLike b (List.mem_cons_of_mem _ member)) later direct
      obtain ⟨failed, others⟩ := opens.fails_alike inside
      refine ⟨failed, fun body' => ?_⟩
      rw [serialLet_cons more]
      exact (direct_single named).mpr ((direct_applied read).mpr (others body'))

theorem letStar_fails {r : Except Fault Value}
    (resolved : w.scopes.operator env operator = .ok (.expander .serialLet))
    (read : Binding.readAll bs = .ok bindings)
    (marked : ∃ b ∈ bindings, ∃ text, b.name.marker? = some text ∧ text ≠ Symbol.restMarker)
    (direct : host.Direct env (Library.apply operator (bs :: body)) w r w') :
    (∃ f, r = .error f) ∧
      ∀ body, host.Direct env (Library.apply operator (bs :: body)) w r w' := by
  have expands (body : List Value) : host.Direct env (Library.apply operator (bs :: body)) w r w' ↔
      host.Direct env (Library.serialLet bindings body) w r w' :=
    direct_congr (resolves_expansion resolved (expansion_serialLet read))
  obtain ⟨failed, others⟩ := serialLet_fails (readAll_nameLike read) marked
    ((expands body).mp direct)
  exact ⟨failed, fun body' => (expands body').mpr (others body')⟩

/-! ### Declaring -/

/-- A reserved name is never bound. -/
theorem not_bind_marker {b : Binding} {name : String} {root : Environment} {v : Value}
    (marker : b.name.marker?.isSome) (named : Engine.declaredName b.name = .ok name) :
    w.bind root name v ≠ (.ok (), w') := by
  intro bound
  have free : Symbol.isReserved name = false := by
    unfold World.bind at bound
    split at bound
    · rename_i scopes ended
      exact (Scopes.bind_eq_ok ended).1
    · cases bound
  obtain ⟨b, init⟩ := b
  cases b with
  | symbol other =>
    cases named
    rw [Value.marker?, free] at marker
    cases marker
  | nil | truth | number | list | callable => cases named

/-- Declarations with a reserved name among them fail, at the latest when that name is bound. -/
theorem Declares.fails_of_marker {root : Environment} {r : Except Fault Unit}
    (declares : host.Declares root bindings w r w')
    (marked : ∃ b ∈ bindings, b.name.marker?.isSome) : ∃ f, r = .error f := by
  induction bindings generalizing w r w' with
  | nil =>
    obtain ⟨b, member, -⟩ := marked
    cases member
  | cons b bindings ih =>
    cases declares with
    | noName | defined | fails | bindsNot => exact ⟨_, rfl⟩
    | cons named _ _ bound more =>
      obtain ⟨other, member, marker⟩ := marked
      rcases List.mem_cons.mp member with rfl | later
      · exact absurd bound (not_bind_marker marker named)
      · exact ih more ⟨other, later, marker⟩

theorem exports_fails {cap : BacktraceCap} {r : Except Fault Value}
    (resolved : w.scopes.operator env operator = .ok (.form (.exports cap)))
    (read : Binding.readAll bs = .ok bindings) (marked : ∃ b ∈ bindings, b.name.marker?.isSome)
    (direct : host.Direct env (Library.apply operator [bs]) w r w') : ∃ f, r = .error f := by
  rcases direct_iff.mp direct with ⟨f, -, rfl⟩ | ⟨t, w₁, resolves, -⟩
  · exact ⟨f, rfl⟩
  · have admitted : (Form.exports cap).arity.Admits [bs].length := rfl
    generalize ended : Except.ok t = tree at resolves
    cases (resolves_form resolved admitted).mp resolves with
    | noBindings wrong => cases ended
    | exports read' declares =>
      cases read.symm.trans read'
      obtain ⟨f, rfl⟩ := declares.fails_of_marker marked
      cases ended

/-! ### All three -/

/-- Reserved names in the places of names. `let` rejects the nil and the true marker and what is no
list of parameters, and names the marker if nothing else is wrong. It accepts the rest marker with at
most one name behind it, for the values behind those of the names before it. `let*` with a nil or a
true marker and declarations with any marker never have a value. -/
theorem Sound.reserved_names (sound : host.Sound) (read : Binding.readAll bs = .ok bindings)
    (body : List Value) (cap : BacktraceCap) :
    (∀ operator, w.scopes.operator env operator = .ok (.expander .parallelLet) →
      (∀ b ∈ bindings, b.init.Undeclaring w.scopes env) →
      ((∃ b ∈ bindings, b.name.marker?.isSome) → ¬ Symbol.Slips (bindings.map (·.name)) →
        ∃ f, host.Rejects env (Library.apply operator (bs :: body)) w f) ∧
      ∀ before marker after text,
        bindings.map (·.name) = before.map Value.symbol ++ marker :: after →
        Symbol.Bindable before → marker.marker? = some text → text ≠ Symbol.restMarker →
        (w.scopes.get? env Symbol.selfName).isSome →
        (∀ f w', ¬ host.ResolvesAll env (bindings.map (·.init)) w (.error f) w') →
        host.Rejects env (Library.apply operator (bs :: body)) w (.reserved text)) ∧
    (∀ operator, w.scopes.operator env operator = .ok (.expander .parallelLet) →
      ∀ before behind, bindings.map (·.name) = before.map Value.symbol ++
          .symbol Symbol.restMarker :: behind.toList.map Value.symbol →
        Symbol.Bindable (before ++ behind.toList) → ∀ r w',
        host.EndsWith env (Library.apply operator (bs :: body)) cap w r w' ↔
          host.Opens env (Library.self :: bindings.map (·.init))
            (LambdaList.entries ⟨Symbol.selfName :: before, .behind behind⟩)
            (fun scope => host.InTurn scope body) w r w') ∧
    (∀ operator, w.scopes.operator env operator = .ok (.expander .serialLet) →
      (∃ b ∈ bindings, ∃ text, b.name.marker? = some text ∧ text ≠ Symbol.restMarker) → ∀ r w',
      host.EndsWith env (Library.apply operator (bs :: body)) cap w r w' →
        (∃ f, r = .error f) ∧
          ∀ body, host.EndsWith env (Library.apply operator (bs :: body)) cap w r w') ∧
    ∀ operator cap', w.scopes.operator env operator = .ok (.form (.exports cap')) →
      (∃ b ∈ bindings, b.name.marker?.isSome) → ∀ r w',
      host.EndsWith env (Library.apply operator [bs]) cap w r w' → ∃ f, r = .error f := by
  have direct {e : Value} {r : Except Fault Value} {w' : World σ} :
      host.EndsWith env e cap w r w' ↔ host.Direct env e w r w' :=
    evaluateOnce_eq_direct sound ..
  refine ⟨fun operator resolved undeclaring => ?_, ?_, ?_, ?_⟩
  · have inits : ∀ b ∈ bindings, host.Resolvable w.scopes env b.init :=
      fun b member => .of_undeclaring (undeclaring b member)
    refine ⟨fun marked other => let_rejects_marker resolved read inits marked other body, ?_⟩
    intro before marker after text names bindable marked notRest bound compile
    exact let_reports_marker resolved read inits names bindable marked notRest bound compile body
  · intro operator resolved before behind names bindable r w'
    exact direct.trans (direct_let_rest resolved read names bindable)
  · intro operator resolved marked r w' ends
    obtain ⟨failed, others⟩ := letStar_fails resolved read marked (direct.mp ends)
    exact ⟨failed, fun body' => direct.mpr (others body')⟩
  · intro operator cap' resolved marked r w' ends
    exact exports_fails resolved read marked (direct.mp ends)

end Host

namespace Extension

/-- A list of one binding, of the nil marker. -/
def nilBinding : List Binding :=
  [⟨.nil, .truth⟩]

/-- A binding of the rest marker, in front of bindings of these names. -/
def restBinding (names : List String) : Value :=
  .list (.list [.symbol "&rest", .number 1] :: names.map fun name => .list [.symbol name, .number 2])

end Extension

open Extension in
/-- The nil marker is rejected as a name, before its expression is evaluated. -/
theorem Host.reserved_names_nil : (Host.none Log).Sound ∧
    Binding.readAll (.list (nilBinding.map Binding.toValue)) = .ok nilBinding ∧
    (Host.none Log).Rejects standard.1.root (Library.apply (.symbol "let")
      (.list (nilBinding.map Binding.toValue) :: [.truth])) standard.2 (.reserved "nil") ∧
    ∀ r w', (Host.none Log).EndsWith standard.1.root (Library.apply (.symbol "export")
      [.list (nilBinding.map Binding.toValue)]) 10 standard.2 r w' → ∃ f, r = .error f := by
  have read : Binding.readAll (.list (nilBinding.map Binding.toValue)) = .ok nilBinding := rfl
  have undeclaring : ∀ b ∈ nilBinding, b.init.Undeclaring standard.2.scopes standard.1.root := by
    intro b member v inside c resolved
    obtain rfl := List.mem_singleton.mp member
    cases inside
    cases resolved
  have compile : ∀ f w', ¬ (Host.none Log).ResolvesAll standard.1.root (nilBinding.map (·.init))
      standard.2 (.error f) w' := by
    intro f w' resolves
    rcases resolvesAll_cons.mp resolves with ⟨f', rest, -⟩ | ⟨ts, w₁, first, rest, one, same⟩
    · cases rest
    · cases one
      cases same
  obtain ⟨atOnce, -, -, declared⟩ := @Host.Sound.reserved_names Log (Host.none Log)
    standard.1.root _ _ standard.2 none_sound read [.truth] 10
  exact ⟨none_sound, read, (atOnce (.symbol "let") rfl undeclaring).2 [] .nil [] "nil" rfl
    ⟨.nil, nofun, nofun⟩ rfl (by decide) rfl compile,
    declared (.symbol "export") 10 rfl ⟨_, List.mem_singleton_self _, rfl⟩⟩

open Extension in
/-- The rest marker is accepted as the last name and as the one before it. With more names behind it
the list of parameters is refused, but not for a reserved name. -/
theorem Host.rest_marker_accepted :
    (∃ w', (Host.none Log).EndsWith standard.1.root (Library.apply (.symbol "let")
      [restBinding [], .number 5]) 10 standard.2 (.ok (.number 5)) w') ∧
    (∃ w', (Host.none Log).EndsWith standard.1.root (Library.apply (.symbol "let")
      [restBinding ["a"], .number 5]) 10 standard.2 (.ok (.number 5)) w') ∧
    (∃ w', (Host.none Log).EndsWith standard.1.root (Library.apply (.symbol "let*")
      [restBinding [], .number 5]) 10 standard.2 (.ok (.number 5)) w') ∧
    ∃ f w', (Host.none Log).EndsWith standard.1.root (Library.apply (.symbol "let")
      [restBinding ["a", "b"], .number 5]) 10 standard.2 (.error f) w' ∧ f.kind = .evaluation :=
  ⟨⟨_, _, ⟨20, rfl⟩, rfl⟩, ⟨_, _, ⟨20, rfl⟩, rfl⟩, ⟨_, _, ⟨20, rfl⟩, rfl⟩, _, _, ⟨_, ⟨20, rfl⟩, rfl⟩, rfl⟩

end CooperativeLisp

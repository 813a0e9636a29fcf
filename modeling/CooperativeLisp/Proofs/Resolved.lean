import CooperativeLisp.Stream

/-!
Resolved expressions. A balanced stream is a tree laid flat: each call frame stands behind the
frames of its operands, and running the stream is walking the tree from the left.
-/

namespace CooperativeLisp

/-- An expression of which nothing is left to look up: a value, or an operation applied to operands. -/
inductive Resolved where
  | value (v : Value)
  | application (operation : Operation) (operands : List Resolved) (origin : Value)

mutual

/-- The frames of a tree, in the order in which they run. -/
def Resolved.frames : Resolved → List Frame
  | .value v => [.value v]
  | .application operation operands origin =>
    Resolved.allFrames operands ++ [.call operation operands.length origin]

/-- The frames of several trees, one after the other. -/
def Resolved.allFrames : List Resolved → List Frame
  | [] => []
  | t :: ts => t.frames ++ Resolved.allFrames ts

end

namespace Resolved

theorem allFrames_append (ts us : List Resolved) :
    allFrames (ts ++ us) = allFrames ts ++ allFrames us := by
  induction ts with
  | nil => rfl
  | cons t ts ih => rw [List.cons_append, allFrames, allFrames, ih, List.append_assoc]

theorem frames_ne_nil (t : Resolved) : t.frames ≠ [] := by
  cases t <;> simp [frames]

end Resolved

/-- From so many values on, every call frame finds its arguments, every call counts as one value,
and a single value is left at the end. -/
def Balanced : Nat → List Frame → Prop
  | height, [] => height = 1
  | height, .value _ :: frames => Balanced (height + 1) frames
  | height, .call _ argc _ :: frames => argc ≤ height ∧ Balanced (height - argc + 1) frames
  | _, .error _ :: _ => False

namespace Resolved

mutual

theorem balanced_append {height : Nat} {rest : List Frame} (t : Resolved)
    (balanced : Balanced (height + 1) rest) : Balanced height (t.frames ++ rest) := by
  cases t with
  | value v => exact balanced
  | application operation operands origin =>
    rw [frames, List.append_assoc]
    refine allBalanced_append operands ?_
    show operands.length ≤ height + operands.length ∧ Balanced _ rest
    refine ⟨by omega, ?_⟩
    rwa [Nat.add_sub_cancel]

theorem allBalanced_append {height : Nat} {rest : List Frame} (ts : List Resolved)
    (balanced : Balanced (height + ts.length) rest) : Balanced height (allFrames ts ++ rest) := by
  cases ts with
  | nil => exact balanced
  | cons t ts =>
    rw [allFrames, List.append_assoc]
    refine balanced_append t (allBalanced_append ts ?_)
    rwa [List.length_cons, Nat.add_comm ts.length, ← Nat.add_assoc] at balanced

end

theorem balanced (t : Resolved) : Balanced 0 t.frames := by
  have whole : Balanced 0 (t.frames ++ []) := t.balanced_append rfl
  rwa [List.append_nil] at whole

end Resolved

/-- Balanced frames behind those of finished operands are the frames of a tree. -/
theorem Balanced.tree {height : Nat} {frames : List Frame} (balanced : Balanced height frames)
    (ts : List Resolved) (length : ts.length = height) :
    ∃ t : Resolved, Resolved.allFrames ts ++ frames = t.frames := by
  induction frames generalizing height ts with
  | nil =>
    obtain rfl : height = 1 := balanced
    obtain ⟨t, rfl⟩ := List.length_eq_one_iff.mp length
    exact ⟨t, by rw [Resolved.allFrames, Resolved.allFrames, List.append_nil, List.append_nil]⟩
  | cons f frames ih =>
    cases f with
    | value v =>
      have balanced : Balanced (height + 1) frames := balanced
      obtain ⟨t, same⟩ := ih balanced (ts ++ [.value v]) (by simp [length])
      refine ⟨t, ?_⟩
      rw [← same, Resolved.allFrames_append, List.append_assoc]
      simp only [Resolved.allFrames, Resolved.frames, List.append_nil, List.cons_append,
        List.nil_append]
    | call operation argc origin =>
      obtain ⟨enough, balanced⟩ := balanced
      -- the operands are the latest trees, and the call takes their place
      have split := List.take_append_drop (height - argc) ts
      have count : (ts.drop (height - argc)).length = argc := by
        rw [List.length_drop]
        omega
      obtain ⟨t, same⟩ := ih balanced
        (ts.take (height - argc) ++ [.application operation (ts.drop (height - argc)) origin])
        (by simp; omega)
      refine ⟨t, ?_⟩
      rw [← same, Resolved.allFrames_append]
      simp only [Resolved.allFrames, Resolved.frames, count, List.append_nil, List.append_assoc]
      rw [← List.append_assoc, ← Resolved.allFrames_append, split]
      rfl
    | error e => exact balanced.elim

namespace Stream

/-- The stream is the tree, or begins with the failure that kept it from becoming one. -/
def Renders (s : Stream) : Except Fault Resolved → Prop
  | .ok t => s.failed = false ∧ s.frames = t.frames
  | .error f => s.failed = true ∧ ∃ e rest, s.frames = .error e :: rest ∧ e.fault = f

theorem Renders.frames_ne_nil {s : Stream} {r : Except Fault Resolved} (renders : s.Renders r) :
    s.frames ≠ [] := by
  cases r with
  | ok t =>
    rw [renders.2]
    exact t.frames_ne_nil
  | error f =>
    obtain ⟨-, e, rest, frames, -⟩ := renders
    rw [frames]
    exact List.cons_ne_nil _ _

/-- What a stream built by hand owes to the machine: it is balanced, or it says that it failed and
begins with the failure. -/
def Sound (s : Stream) : Prop :=
  s.failed = false ∧ Balanced 0 s.frames ∨ s.failed = true ∧ ∃ e rest, s.frames = .error e :: rest

theorem sound_iff_renders {s : Stream} : s.Sound ↔ ∃ r, s.Renders r := by
  constructor
  · rintro (⟨whole, balanced⟩ | ⟨failed, e, rest, frames⟩)
    · obtain ⟨t, same⟩ := balanced.tree [] rfl
      exact ⟨.ok t, whole, same⟩
    · exact ⟨.error e.fault, failed, e, rest, frames, rfl⟩
  · rintro ⟨t | f, renders⟩
    · obtain ⟨failed, e, rest, frames, -⟩ := renders
      exact Or.inr ⟨failed, e, rest, frames⟩
    · obtain ⟨whole, frames⟩ := renders
      exact Or.inl ⟨whole, frames ▸ f.balanced⟩

end Stream

end CooperativeLisp

import Mathlib.Order.Defs.Unbundled
import TableLisp.Proofs.Eval.Compositional

/-!
# Effects of an evaluation

What an evaluation does to the state, apart from what comes of it. `Eval.after` is the state that is
left, be it with a result or with an error, and `Eval.Within R` says that it is always related by
`R` to the state before. For a preorder `R` this composes along every sequence of evaluations
(`Eval.Within.compositional`), so the loops of the evaluator and the primitives inherit it from what
they call.
-/

namespace TableLisp

namespace Eval

/-- The state that an evaluation leaves. -/
def after (x : Eval α) (s : State) : State :=
  match x s with
  | .ok _ t => t
  | .error _ t => t

/-- Every run of an evaluation takes the state to a related one. -/
def Within (R : State → State → Prop) (x : Eval α) : Prop :=
  ∀ s, R s (x.after s)

/-! ## Single steps -/

@[simp] theorem after_pure (a : α) (s : State) : (pure a : Eval α).after s = s := rfl

@[simp] theorem after_throw (e : EvalError) (s : State) :
    (throw e : Eval α).after s = s := rfl

theorem after_bind (x : Eval α) (f : α → Eval β) (s : State) :
    (x >>= f).after s =
      match x s with
      | .ok a t => (f a).after t
      | .error _ t => t := by
  simp only [after, bind, EStateM.bind]
  cases x s <;> rfl

theorem after_nested (x : Eval α) (s : State) :
    (nested x).after s =
      match s.guard.enter? with
      | none => s
      | some guard =>
        let t := x.after { s with guard }
        { t with guard := t.guard.leave } := by
  simp only [after, nested]
  cases s.guard.enter? with
  | none => rfl
  | some guard => cases h : x { s with guard } <;> simp [h]

namespace Within

variable {R : State → State → Prop}

theorem withStore {f : Store → Eval α} (h : ∀ store, Within R (f store)) :
    Within R (withStore f) :=
  fun s => h s.store s

variable [IsPreorder State R]

theorem of_after_eq {x : Eval α} (h : ∀ s, x.after s = s) : Within R x := by
  intro s
  rw [h]
  exact refl_of R s

theorem pure (a : α) : Within R (pure a : Eval α) := of_after_eq (after_pure a)

theorem throw (e : EvalError) : Within R (throw e : Eval α) := of_after_eq (after_throw e)

theorem bind {x : Eval α} {f : α → Eval β} (hx : Within R x) (hf : ∀ a, Within R (f a)) :
    Within R (x >>= f) := by
  intro s
  have h := hx s
  rw [after_bind]
  rw [after] at h
  cases hr : x s with
  | ok a t =>
      rw [hr] at h
      exact trans_of R h (hf a t)
  | error e t =>
      rw [hr] at h
      exact h

theorem compositional : Compositional fun x _ => Within R x where
  pure := pure
  throw := throw
  bind := bind

theorem ofExcept (r : Except EvalError α) : Within R (ofExcept r) :=
  compositional.ofExcept r

theorem lookup (frame : FrameId) (name : String) : Within R (lookup frame name) := by
  rw [lookup_eq]
  refine withStore fun store => ?_
  cases store.lookup? frame name with
  | none => exact throw _
  | some v => exact pure v

end Within

end Eval

/-! ## Calls -/

theorem after_applyClosure (eval : Evaluator) (id : Nat) (formals : List String)
    (args : List Value) (s : State) :
    (applyClosure eval id formals args).after s =
      if args.length ≠ formals.length then s
      else
        match s.store.codes[id]? with
        | none => s
        | some code =>
          (evalBody eval s.store.frames.size .nil code.body).after
            { s with store := (s.store.newFrame (formals.zip args) (some code.frame)).2 } := by
  rw [Eval.after, applyClosure_run]
  by_cases h : args.length ≠ formals.length
  · rw [if_pos h, if_pos h]
  · rw [if_neg h, if_neg h]
    cases s.store.codes[id]? <;> rfl

end TableLisp

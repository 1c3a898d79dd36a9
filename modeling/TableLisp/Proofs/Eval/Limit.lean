import TableLisp.Proofs.Eval.Compositional

/-!
# Evaluation under a larger limit

A limit can refuse an evaluation, and it has no other part in it. `Eval.Refines g g'` compares two
evaluations that start on the same store under the guards `g` and `g'`: each gives its guard back,
and they end alike and leave the same store, unless the first is refused for its depth. Once the
first is refused nothing is said about the second, so every sequence of evaluations inherits the
relation from its parts: nothing in the evaluator catches a refusal, and nothing reads the depth.

The relation says nothing about the store, so the parts of a form pass it on (`Refines.storeBlind`).
What is left is the recursion: `evalWith_refines` enters one level on both sides.
-/

namespace TableLisp

/-! ## Guards -/

namespace Guard

/-- The same depth under a limit that is no smaller. -/
structure Below (g g' : Guard) : Prop where
  depth_eq : g.depth = g'.depth
  limit_le : g.limit ≤ g'.limit

/-- What may still be nested may still be nested under the larger limit. -/
theorem Below.enter? {g g' h : Guard} (hle : g.Below g') (henter : g.enter? = some h) :
    ∃ h', g'.enter? = some h' ∧ h.Below h' := by
  obtain ⟨hdepth, hlimit⟩ := hle
  unfold Guard.enter? at *
  split at henter
  · cases henter
  · cases henter
    refine ⟨⟨g'.depth + 1, g'.limit⟩, ?_, ?_, hlimit⟩
    · rw [if_neg]
      omega
    · exact congrArg (· + 1) hdepth

theorem Below.room_le {g g' : Guard} (hle : g.Below g') : g.room ≤ g'.room := by
  obtain ⟨hdepth, hlimit⟩ := hle
  unfold room
  omega

end Guard

namespace Eval

/-! ## Two runs -/

/-- Two results, reached under the guards `g` and `g'`, which are the same unless the first is the
refusal of a limit. -/
inductive Agree (g g' : Guard) :
    EStateM.Result EvalError State α → EStateM.Result EvalError State α → Prop
  | ok (a : α) (store : Store) : Agree g g' (.ok a ⟨store, g⟩) (.ok a ⟨store, g'⟩)
  | error (e : EvalError) (store : Store) :
      Agree g g' (.error e ⟨store, g⟩) (.error e ⟨store, g'⟩)
  | tooDeep (limit : Int) (store : Store) (r : EStateM.Result EvalError State α) :
      Agree g g' (.error (.tooDeep limit) ⟨store, g⟩) r

/-- Started on the same store, the runs of `x` under `g` and of `x'` under `g'` agree. -/
def Refines (g g' : Guard) (x x' : Eval α) : Prop :=
  ∀ store, Agree g g' (x ⟨store, g⟩) (x' ⟨store, g'⟩)

namespace Refines

variable {g g' : Guard}

theorem pure (a : α) : Refines g g' (pure a : Eval α) (pure a) :=
  fun store => .ok a store

theorem throw (e : EvalError) : Refines g g' (throw e : Eval α) (throw e) :=
  fun store => .error e store

theorem bind {x x' : Eval α} {f f' : α → Eval β} (hx : Refines g g' x x')
    (hf : ∀ a, Refines g g' (f a) (f' a)) : Refines g g' (x >>= f) (x' >>= f') := by
  intro store
  have h := hx store
  simp only [Bind.bind, EStateM.bind]
  generalize x ⟨store, g⟩ = r at h
  generalize x' ⟨store, g'⟩ = r' at h
  cases h with
  | ok a store => exact hf a store
  | error e store => exact .error e store
  | tooDeep limit store => exact .tooDeep limit store _

theorem storeBlind : StoreBlind fun x x' => Refines g g' x x' where
  pure := pure
  throw := throw
  bind := bind
  onStore f store := .ok (f store).1 (f store).2
  withStore h store := h store store

/-- A level of nesting that the smaller guard refuses may come to anything under the larger one. -/
theorem nested {x x' : Eval α} (hle : g.Below g')
    (h : ∀ {inner inner' : Guard}, g.enter? = some inner → g'.enter? = some inner' →
      inner.Below inner' → Refines inner inner' x x') :
    Refines g g' (nested x) (nested x') := by
  intro store
  simp only [Eval.nested]
  cases henter : g.enter? with
  | none => exact .tooDeep _ store _
  | some inner =>
      obtain ⟨inner', henter', hinner⟩ := hle.enter? henter
      have hx := h henter henter' hinner store
      simp only [henter']
      generalize x ⟨store, inner⟩ = r at hx
      generalize x' ⟨store, inner'⟩ = r' at hx
      cases hx with
      | ok a store =>
          simp only [Guard.leave_of_enter? henter, Guard.leave_of_enter? henter']
          exact .ok a store
      | error e store =>
          simp only [Guard.leave_of_enter? henter, Guard.leave_of_enter? henter']
          exact .error e store
      | tooDeep limit store =>
          simp only [Guard.leave_of_enter? henter]
          exact .tooDeep limit store _

end Refines

end Eval

/-! ## The evaluator -/

open Eval

/-- The rooms that two guards leave are counted down together, until the smaller one is used up. -/
theorem evalWith_refines : ∀ (room : Nat) {g g' : Guard}, g.room = room → g.Below g' →
    ∀ form frame, Refines g g' (evalWith room form frame) (evalWith g'.room form frame)
  | 0, g, g', hroom, _, form, frame => by
      -- without room the smaller guard refuses, and nothing is asked of the other run
      intro store
      have hrefused : g.enter? = none := Guard.enter?_eq_none_iff.mpr hroom
      simp only [evalWith, nested, hrefused]
      exact .tooDeep g.limit store _
  | room + 1, g, g', hroom, hle, form, frame => by
      obtain ⟨room', hroom'⟩ : ∃ room', g'.room = room' + 1 :=
        Nat.exists_eq_add_one.mpr (by have := hle.room_le; omega)
      rw [hroom']
      refine Refines.nested hle fun {inner inner'} henter henter' hinner => ?_
      have hleft : inner.room = room := by have := Guard.room_of_enter? henter; omega
      obtain rfl : inner'.room = room' := by have := Guard.room_of_enter? henter'; omega
      exact Refines.storeBlind.stepwise.evalParts (evalWith_refines room hleft hinner) form frame

theorem evaluate_refines {g g' : Guard} (hle : g.Below g') (form : Form) (frame : FrameId) :
    Refines g g' (evaluate form frame) (evaluate form frame) :=
  fun store => evalWith_refines g.room rfl hle form frame store

end TableLisp

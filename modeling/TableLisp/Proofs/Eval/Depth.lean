import TableLisp.Proofs.Eval.Effect

/-!
# The depth of an evaluation

The guard counts an evaluation while it runs and is given back at every exit, also at an error. So
all parts of a form are evaluated under one and the same guard, the one that was entered for the
form. `Eval.SameUnder g` compares evaluations on these terms: started under `g`, both come to the
same and leave `g` behind. It says nothing about the store, hence it passes on from parts to forms
and calls (`SameUnder.storeBlind`), and three things follow by recursion on the room:

- `evaluate_guard`, `applyValue_guard`: an evaluation and a call leave the guard that they found.
- `evaluate_eq`, `applyValue_eq`: the evaluator as a recursion in which no room is mentioned.
- `depthWithin_limit`: on the way the counter never passes the limit.

The states in the middle of an evaluation cannot be seen from outside. A watch on the counter
(`evalWatched`) makes them matter: it lets an arbitrary `alarm` take over as soon as the counter is
above a bound. The counter stays within the bound (`DepthWithin`) if no alarm makes a difference.
This says something of every evaluation that is counted: it makes the counter pass what it was, so
no bound as low as that will do (`lt_of_depthWithin`).
-/

namespace TableLisp

namespace Eval

/-! ## Evaluations under one guard -/

/-- Started under `g` on any store, `x` and `x'` come to the same, and `g` is left behind. -/
def SameUnder (g : Guard) (x x' : Eval α) : Prop :=
  ∀ store, x ⟨store, g⟩ = x' ⟨store, g⟩ ∧ (x.after ⟨store, g⟩).guard = g

namespace SameUnder

variable {g : Guard}

theorem pure (a : α) : SameUnder g (pure a : Eval α) (pure a) :=
  fun _ => ⟨rfl, rfl⟩

theorem throw (e : EvalError) : SameUnder g (throw e : Eval α) (throw e) :=
  fun _ => ⟨rfl, rfl⟩

theorem bind {x x' : Eval α} {f f' : α → Eval β} (hx : SameUnder g x x')
    (hf : ∀ a, SameUnder g (f a) (f' a)) : SameUnder g (x >>= f) (x' >>= f') := by
  intro store
  obtain ⟨heq, hguard⟩ := hx store
  rw [after_bind]
  simp only [Bind.bind, EStateM.bind, ← heq]
  rw [after] at hguard
  cases hr : x ⟨store, g⟩ with
  | ok a t =>
      obtain ⟨store', g'⟩ := t
      rw [hr] at hguard
      obtain rfl : g' = g := hguard
      exact hf a store'
  | error e t =>
      rw [hr] at hguard
      exact ⟨rfl, hguard⟩

theorem storeBlind : StoreBlind fun x x' => SameUnder g x x' where
  pure := pure
  throw := throw
  bind := bind
  onStore _ _ := ⟨rfl, rfl⟩
  withStore h store := h store store

/-- One more level of nesting is given back, whatever comes of it. -/
theorem nested {x x' : Eval α} (h : ∀ inner, g.enter? = some inner → SameUnder inner x x') :
    SameUnder g (nested x) (nested x') := by
  intro store
  rw [after_nested]
  simp only [Eval.nested]
  cases henter : g.enter? with
  | none => exact ⟨rfl, rfl⟩
  | some inner =>
      obtain ⟨heq, hguard⟩ := h inner henter store
      refine ⟨by simp only [heq], ?_⟩
      simp only [hguard, Guard.leave_of_enter? henter]

theorem guard_after {x x' : Eval α} (h : ∀ g, SameUnder g x x') (s : State) :
    (x.after s).guard = s.guard :=
  (h s.guard s.store).2

end SameUnder

end Eval

open Eval

/-! ## The evaluator without its room -/

theorem evalWith_sameUnder : ∀ (room : Nat) (g : Guard) (form : Form) (frame : FrameId),
    SameUnder g (evalWith room form frame) (evalWith room form frame)
  | 0, _, _, _ => .nested fun _ _ => .pure _
  | room + 1, _, form, frame => by
      refine .nested fun inner _ => ?_
      exact SameUnder.storeBlind.stepwise.evalParts (evalWith_sameUnder room inner) form frame

theorem evaluate_sameUnder (g : Guard) (form : Form) (frame : FrameId) :
    SameUnder g (evaluate form frame) (evaluate form frame) :=
  evalWith_sameUnder g.room g form frame

/-- Under a guard, evaluating with its room is evaluating. -/
theorem evalWith_room (g : Guard) (form : Form) (frame : FrameId) :
    SameUnder g (evalWith g.room form frame) (evaluate form frame) :=
  fun store => ⟨rfl, (evalWith_sameUnder g.room g form frame store).2⟩

/-- A form evaluates to what is made of its parts, one level deeper. -/
theorem evaluate_eq (form : Form) (frame : FrameId) :
    evaluate form frame = nested (evalParts evaluate form frame) := by
  funext ⟨store, g⟩
  have hleft : evaluate form frame ⟨store, g⟩ = evalWith g.room form frame ⟨store, g⟩ := rfl
  rw [hleft]
  cases hroom : g.room with
  | zero =>
      have hrefused : g.enter? = none := Guard.enter?_eq_none_iff.mpr hroom
      simp only [evalWith, nested, hrefused]
  | succ room =>
      have hsame : SameUnder g (nested (evalParts (evalWith room) form frame))
          (nested (evalParts evaluate form frame)) := by
        refine .nested fun inner henter => ?_
        obtain rfl : inner.room = room := by
          have := Guard.room_of_enter? henter
          omega
        exact SameUnder.storeBlind.stepwise.evalParts (evalWith_room inner) form frame
      exact (hsame store).1

theorem applyValue_eq_apply (fn : Value) (args : List Value) (caller : FrameId) :
    applyValue fn args caller = apply evaluate fn args caller := by
  funext ⟨store, g⟩
  exact (SameUnder.storeBlind.stepwise.apply (evalWith_room g) fn args caller store).1

/-- A call runs a closure's body, or a primitive that calls in the same way. -/
theorem applyValue_eq (fn : Value) (args : List Value) (caller : FrameId) :
    applyValue fn args caller =
      applyWith evaluate (fun fn arg => applyValue fn [arg] caller) fn args := by
  rw [applyValue_eq_apply, apply_eq]
  simp only [applyValue_eq_apply]

/-! ## The guard that is left -/

theorem applyValue_sameUnder (g : Guard) (fn : Value) (args : List Value) (caller : FrameId) :
    SameUnder g (applyValue fn args caller) (applyValue fn args caller) := by
  rw [applyValue_eq_apply]
  exact SameUnder.storeBlind.stepwise.apply (evaluate_sameUnder g) fn args caller

theorem applyValue_guard (fn : Value) (args : List Value) (caller : FrameId) (s : State) :
    ((applyValue fn args caller).after s).guard = s.guard :=
  SameUnder.guard_after (fun g => applyValue_sameUnder g fn args caller) s

/-! ## At the limit -/

/-- The way of evaluating that refuses every form. -/
def refuse : Evaluator :=
  fun _ _ s => .error (.tooDeep s.guard.limit) s

theorem evaluate_of_limit_le {s : State} (h : s.guard.limit ≤ s.guard.depth) (form : Form)
    (frame : FrameId) : evaluate form frame s = .error (.tooDeep s.guard.limit) s := by
  have hrefused : s.guard.enter? = none := by rw [Guard.enter?, if_pos h]
  rw [evaluate_eq]
  simp only [nested, hrefused]

namespace Eval

/-- Runs an evaluation, but lets `alarm` take over if the counter is above a bound before it or
after it. -/
def watch (bound : Int) (alarm x : Eval α) : Eval α := fun s =>
  if bound < s.guard.depth then alarm s
  else
    match x s with
    | .ok a t => if bound < t.guard.depth then alarm t else .ok a t
    | .error e t => if bound < t.guard.depth then alarm t else .error e t

theorem SameUnder.watch {g : Guard} {bound : Int} (hdepth : g.depth ≤ bound) (alarm : Eval α)
    {x x' : Eval α} (h : SameUnder g x x') : SameUnder g x (watch bound alarm x') := by
  intro store
  obtain ⟨heq, hguard⟩ := h store
  refine ⟨?_, hguard⟩
  have hquiet : ¬ bound < g.depth := Int.not_lt.mpr hdepth
  rw [after] at hguard
  simp only [Eval.watch, if_neg hquiet, ← heq]
  cases hr : x ⟨store, g⟩ with
  | ok a t | error e t =>
      rw [hr] at hguard
      simp only [hguard, if_neg hquiet]

end Eval

/-- The evaluator under a watch. Every evaluation is watched twice, from outside and from where it
has been counted, so that the counter is looked at after each of its changes. -/
def evalWatched (bound : Int) (alarm : Evaluator) : Nat → Evaluator
  | 0, form, frame => watch bound (alarm form frame) (nested (pure .nil))
  | room + 1, form, frame =>
    watch bound (alarm form frame)
      (nested (watch bound (alarm form frame)
        (evalParts (evalWatched bound alarm room) form frame)))

/-- While a form is evaluated the counter does not pass a bound: no alarm is ever heard. Where the
counter does pass one, some alarm is (`lt_of_depthWithin`). -/
def DepthWithin (bound : Int) (form : Form) (frame : FrameId) (s : State) : Prop :=
  ∀ alarm, evalWatched bound alarm s.guard.room form frame s = evaluate form frame s

theorem watch_throw {bound : Int} {e : EvalError} {x : Eval α} {s : State}
    (hx : x s = .error e s) : watch bound (throw e) x s = .error e s := by
  simp only [watch, hx]
  split <;> rfl

/-- The watch is not deaf: where an evaluation is counted, the counter passes what it was. -/
theorem lt_of_depthWithin {bound : Int} {form : Form} {frame : FrameId} {s : State}
    (h : DepthWithin bound form frame s) (hroom : s.guard.depth < s.guard.limit) :
    s.guard.depth < bound := by
  obtain ⟨store, g⟩ := s
  have henter : g.enter? = some { g with depth := g.depth + 1 } := by
    rw [Guard.enter?, if_neg (Int.not_le.mpr hroom)]
  obtain ⟨room, hsucc⟩ : ∃ room, g.room = room + 1 := ⟨_, Guard.room_of_enter? henter⟩
  refine Int.not_le.mp fun hpassed => ?_
  have hheard (e : EvalError) : evaluate form frame ⟨store, g⟩ = .error e ⟨store, g⟩ := by
    rw [← h fun _ _ => throw e, hsucc]
    refine watch_throw ?_
    have hinner : bound < g.depth + 1 := Int.lt_add_one_of_le hpassed
    simp only [nested, henter, watch, if_pos hinner]
    exact congrArg (fun guard => EStateM.Result.error e (State.mk store guard))
      (Guard.leave_of_enter? henter)
  -- two alarms cannot both be what comes of the evaluation
  have htwo := (hheard .dottedCall).symm.trans (hheard .notAssociation)
  cases htwo

end TableLisp

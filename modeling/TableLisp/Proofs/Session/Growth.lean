import TableLisp.Proofs.Eval.Correspondence
import TableLisp.Proofs.Eval.Frames
import TableLisp.Proofs.Session.Depth

/-!
# The store only grows

No frame and no code of a closure is ever lost, and no code is changed: this holds of each of the
three things that the evaluator does to the store, hence of every evaluation (`evaluate_extends`)
and of whatever a session does (`Session.extends_perform`). It takes neither a session that was
opened properly nor values that refer to what is there.
-/

namespace TableLisp

open Eval

/-! ## Evaluations -/

/-- `Store.Extends` on the stores of two states. -/
def State.Extends (s t : State) : Prop :=
  s.store.Extends t.store

instance : IsPreorder State State.Extends where
  refl s := refl_of Store.Extends s.store
  trans _ _ _ hst htu := trans_of Store.Extends hst htu

theorem extends_stepwise : Stepwise fun x _ => Within State.Extends x where
  toCompositional := Within.compositional
  newFrame bindings outer s := s.store.extends_newFrame bindings outer
  newClosure formals code s := s.store.extends_newClosure formals code
  define frame name v s := s.store.extends_define frame name v
  withStore h := Within.withStore h

theorem nested_extends {x : Eval α} (h : Within State.Extends x) :
    Within State.Extends (Eval.nested x) := by
  intro s
  rw [after_nested]
  split
  · exact refl_of State.Extends s
  · next guard _ => exact h { s with guard }

theorem evalWith_extends : ∀ (room : Nat) (form : Form) (frame : FrameId),
    Within State.Extends (evalWith room form frame)
  | 0, _, _ => nested_extends (extends_stepwise.pure _)
  | room + 1, form, frame =>
      nested_extends (@Stepwise.evalParts _ extends_stepwise (evalWith room) (evalWith room)
        (evalWith_extends room) form frame)

theorem evaluate_extends (form : Form) (frame : FrameId) :
    Within State.Extends (evaluate form frame) :=
  fun s => evalWith_extends s.guard.room form frame s

/-! ## Sessions -/

namespace Session

/-- A later moment of a session: it has the same global frame, in a store that has grown. -/
structure Extends (earlier later : Session) : Prop where
  global : later.global = earlier.global
  state : earlier.state.Extends later.state

instance : IsPreorder Session Extends where
  refl session := ⟨rfl, refl_of State.Extends session.state⟩
  trans _ _ _ hab hbc :=
    ⟨hbc.global.trans hab.global, trans_of State.Extends hab.state hbc.state⟩

theorem extends_evalForms (session : Session) (forms : List Form) :
    session.Extends (session.evalForms forms).2 := by
  rw [evalForms_snd]
  exact ⟨rfl, extends_stepwise.evalBody evaluate evaluate session.global .nil forms
    (fun form _ => evaluate_extends form session.global) session.state⟩

theorem extends_run (session : Session) (code : String) :
    session.Extends (session.run code).2 := by
  unfold run
  cases parse session.state.guard.limit code.toList with
  | error e => exact refl_of Extends session
  | ok forms => exact extends_evalForms session forms

theorem extends_step (session : Session) (s : Step) : session.Extends (session.step s) := by
  cases s with
  | define name v => exact ⟨rfl, Store.extends_define _ _ _ _⟩
  | run code => exact extends_run session code
  | limit n => exact ⟨rfl, refl_of State.Extends session.state⟩

/-- Whatever steps a session takes, it is later after them. -/
theorem extends_perform (session : Session) (steps : List Step) :
    session.Extends (session.perform steps) :=
  perform_keeps (fun later s h => trans_of Extends h (extends_step later s)) steps
    (refl_of Extends session)

end Session

end TableLisp

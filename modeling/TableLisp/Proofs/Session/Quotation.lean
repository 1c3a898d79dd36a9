import TableLisp.Proofs.Eval.Yields
import TableLisp.Proofs.Reader.ValueText
import TableLisp.Proofs.Session.Depth

/-!
# Printed values as programs

What a session prints for a value can be given back to it behind a quote mark. The program is one
form, which yields the value again and touches nothing. The quote mark takes one level of the limit
beyond the parentheses of the text, in the reader; the evaluation takes one as well, and finds the
counter at zero whatever the session has been through (`Session.depth_perform`).
-/

namespace TableLisp

namespace Session

/-- A quoted text is a program for the value that it was printed from. -/
theorem run_quoted_text {session : Session} {v : Value} (hv : v.Readable)
    (hdepth : session.state.guard.depth = 0)
    (hlimit : (parenNesting v.text.toList : Int) < session.state.guard.limit) :
    session.run ("'" ++ v.text) = (.ok v, session) := by
  have hroom : 1 ≤ session.state.guard.room := by
    rw [Guard.room, hdepth]
    omega
  have hquoted := Eval.Yields.quoted v.toForm session.global session.state.store
  rw [Value.toValue_toForm] at hquoted
  exact run_of_yields (hv.parse_quoted_text hlimit) hquoted hroom

end Session

/-- **Printing and quoting.** Whatever a session has been through, the quoted text of a readable
value is a program that succeeds with an equal value and leaves the session as it was, if the limit
is above the nesting of the parentheses. So two readable values with one text are the same. -/
theorem quoted_text_evaluates :
    (∀ (store : Store) (limit : Int) (global : FrameId) (steps : List Session.Step) (v : Value),
      v.Readable →
      let session := (Session.mk ⟨store, .ofLimit limit⟩ global).perform steps
      (parenNesting v.text.toList : Int) < session.state.guard.limit →
      ∃ w, session.run ("'" ++ v.text) = (.ok w, session) ∧ w.isEqual v = true) ∧
    (∀ v w : Value, v.Readable → w.Readable → v.text = w.text → v = w) := by
  constructor
  · intro store limit global steps v hv session hlimit
    have hdepth : session.state.guard.depth = 0 := Session.depth_perform rfl steps
    exact ⟨v, Session.run_quoted_text hv hdepth hlimit, Value.isEqual_iff.mpr rfl⟩
  · intro v w hv hw
    exact hv.text_injective hw

/-- Four levels for a text that nests three: an empty list inside a list, a parenthesis in a string
and a dotted tail. The session has failed once, and then its limit was lowered. -/
theorem quoted_text_under_four :
    let v : Value := .pair (.pair .nil (.str "(")) (.pair (.int (-7)) (.sym "x"))
    let session := (Session.start 5).perform [.run "(car (car 1))", .limit 4]
    v.text = "((() . \"(\") -7 . x)" ∧
      ∃ w, session.run ("'" ++ v.text) = (.ok w, session) ∧ w.isEqual v = true := by
  intro v session
  have hv : v.Readable :=
    .pair (.pair .nil (.str (by decide))) (.pair (.int (by decide)) (.sym (by decide)))
  refine ⟨by decide +kernel, ?_⟩
  exact quoted_text_evaluates.1 _ 5 0 _ v hv (by decide +kernel)

end TableLisp

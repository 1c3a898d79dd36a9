import Mathlib.Control.Monad.Basic
import TableLisp.Proofs.Reader.Moving
import TableLisp.Proofs.Session.Depth

/-!
# Programs joined by a line feed

A program is read as a whole and then evaluated form by form until one fails. Both go along a text:
two programs that can be read by themselves are read one after the other (`parse_joined`), and the
forms of the first are evaluated before those of the second (`Session.evalForms_append`). So running
the joined text is running the first program and, if that succeeds, the second.

Nothing of a text that cannot be read is evaluated, and no program in front of it makes it readable.
-/

namespace TableLisp

/-! ## Forms one after the other -/

theorem evalBody_append (eval : Evaluator) (frame : FrameId) (later : List Form) :
    ∀ (forms : List Form) (last : Value) (s : State),
      evalBody eval frame last (forms ++ later) s =
        match evalBody eval frame last forms s with
        | .ok v t => evalBody eval frame v later t
        | .error e t => .error e t
  | [], _, _ => rfl
  | form :: rest, _, s => by
      simp only [List.cons_append, evalBody, bind, EStateM.bind]
      cases eval form frame s with
      | ok v t => exact evalBody_append eval frame later rest v t
      | error e t => rfl

/-- The value before a form is forgotten. -/
theorem evalBody_last (eval : Evaluator) (frame : FrameId) {forms : List Form} (hne : forms ≠ [])
    (last last' : Value) : evalBody eval frame last forms = evalBody eval frame last' forms := by
  cases forms with
  | nil => exact absurd rfl hne
  | cons form rest => rfl

namespace Session

/-- Forms are evaluated until one fails; after the last one its value is there. -/
theorem evalForms_append (session : Session) (forms later : List Form) :
    session.evalForms (forms ++ later) =
      match session.evalForms forms with
      | (.error e, after) => (.error e, after)
      | (.ok v, after) => if later.isEmpty then (.ok v, after) else after.evalForms later := by
  simp only [evalForms, evalBody_append]
  cases evalBody evaluate session.global .nil forms session.state with
  | error e t => rfl
  | ok v t =>
      dsimp only
      by_cases hlater : later = []
      · subst hlater
        rfl
      · have hempty : later.isEmpty = false := by simpa using hlater
        rw [evalBody_last evaluate session.global hlater v .nil, hempty]
        rfl

/-! ## Programs one after the other -/

theorem run_of_parse {session : Session} {code : String} {forms : List Form}
    (h : parse session.state.guard.limit code.toList = .ok forms) :
    session.run code =
      ((session.evalForms forms).1.mapError .eval, (session.evalForms forms).2) := by
  simp only [run, h]

/-- A text that cannot be read changes nothing. -/
theorem run_of_unreadable {session : Session} {code : String} {e : ReadError}
    (h : parse session.state.guard.limit code.toList = .error e) :
    session.run code = (.error (.read e), session) := by
  simp only [run, h]

theorem toList_joined (first second : String) :
    (first ++ "\n" ++ second).toList = first.toList ++ '\n' :: second.toList := by
  simp

/-- **Joined programs.** In every session two programs that can each be read do the same joined by a
line feed as one after the other, the second only if the first succeeds: they leave the same session
behind, with the same error if there is one, and with the value of the second program, or of the
first if there is no form in the second. A text that cannot be read fails and leaves the session
as it was, also behind a program that can be read. -/
theorem run_joined :
    (∀ (session : Session) (first second : String) (forms later : List Form),
      parse session.state.guard.limit first.toList = .ok forms →
      parse session.state.guard.limit second.toList = .ok later →
      session.run (first ++ "\n" ++ second) =
        match session.run first with
        | (.error e, after) => (.error e, after)
        | (.ok v, after) => if later.isEmpty then (.ok v, after) else after.run second) ∧
    (∀ (session : Session) (code : String) (e : ReadError),
      parse session.state.guard.limit code.toList = .error e →
      session.run code = (.error (.read e), session)) ∧
    (∀ (session : Session) (first second : String) (forms : List Form) (e : ReadError),
      parse session.state.guard.limit first.toList = .ok forms →
      parse session.state.guard.limit second.toList = .error e →
      ∃ e', session.run (first ++ "\n" ++ second) = (.error (.read e'), session)) := by
  refine ⟨?_, fun session code e => run_of_unreadable, ?_⟩
  · intro session first second forms later hfirst hsecond
    have hjoined : parse session.state.guard.limit (first ++ "\n" ++ second).toList =
        .ok (forms ++ later) := by
      rw [toList_joined]
      exact (parse_joined hfirst second.toList _).mpr ⟨later, hsecond, rfl⟩
    have hguard := guard_evalForms session forms
    rw [run_of_parse hjoined, run_of_parse hfirst, evalForms_append]
    generalize session.evalForms forms = outcome at hguard
    obtain ⟨answer, after⟩ := outcome
    cases answer with
    | error e => rfl
    | ok v =>
        rw [← hguard] at hsecond
        cases later.isEmpty with
        | true => rfl
        | false => exact (run_of_parse hsecond).symm
  · intro session first second forms e hfirst hsecond
    cases hjoined : parse session.state.guard.limit (first ++ "\n" ++ second).toList with
    | error e' => exact ⟨e', run_of_unreadable hjoined⟩
    | ok all =>
        rw [toList_joined, parse_joined hfirst, hsecond] at hjoined
        obtain ⟨later, ⟨⟩, -⟩ := hjoined

/-- A comment ends at the line feed, and the second program finds what the first one defines. Behind
a definition an open parenthesis is still a fault, and then nothing is defined. -/
theorem run_joined_definition :
    let session := Session.start 3
    let first := "(define x 1) ;"
    (session.run (first ++ "\n" ++ "(cons x x)") =
        match session.run first with
        | (.error e, after) => (.error e, after)
        | (.ok v, after) => if false then (.ok v, after) else after.run "(cons x x)") ∧
      (∃ e, session.run "(define x 1) (" = (.error (.read e), session)) ∧
      ∃ e, session.run (first ++ "\n" ++ "(") = (.error (.read e), session) := by
  intro session first
  have hfirst : parse session.state.guard.limit first.toList =
      .ok [.list [.sym "define", .sym "x", .const (.int 1)]] := by decide +kernel
  have hsecond : parse session.state.guard.limit "(cons x x)".toList =
      .ok [.list [.sym "cons", .sym "x", .sym "x"]] := by decide +kernel
  have hopen : parse session.state.guard.limit "(define x 1) (".toList =
      .error (.parse ⟨.unmatchedOpen, 13, ⟨0, 13⟩⟩) := by decide +kernel
  have hlater : parse session.state.guard.limit "(".toList =
      .error (.parse ⟨.unmatchedOpen, 0, ⟨0, 0⟩⟩) := by decide +kernel
  exact ⟨run_joined.1 session first _ _ _ hfirst hsecond,
    ⟨_, run_joined.2.1 session _ _ hopen⟩, run_joined.2.2 session first _ _ _ hfirst hlater⟩

end Session

end TableLisp

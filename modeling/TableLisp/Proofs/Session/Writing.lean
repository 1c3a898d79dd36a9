import TableLisp.Proofs.Session.Provenance

/-!
# What a session can write

A numeral is read only if it is that of a signed word, and such an integer can be written. So a
session that has been given nothing too long never comes upon anything too long: whatever its
programs come to can be written, the value or the wording of the error
(`Session.IsWritable.run`). A session that starts with nothing before it is one of these
(`Session.isWritable_start`).
-/

namespace TableLisp

open Text

/-! ## Values -/

theorem isWritable_of_inWordRange {n : Int} (h : inWordRange n = true) :
    Numeral.isWritable n = true := by
  have hword : n.natAbs < 10 ^ 19 := by
    simp only [inWordRange, Bool.and_eq_true, decide_eq_true_eq] at h
    omega
  exact Numeral.isWritable_iff.mpr
    (Nat.lt_of_lt_of_le hword (Nat.pow_le_pow_right (by decide) (by decide)))

/-- All atoms but the integers that cannot be written. -/
def writableAtoms : Set Value :=
  { a | ∀ n, a = .int n → Numeral.isWritable n = true }

/-- What stands in a program can be written. -/
theorem mem_writableAtoms {limit : Int} {code : String} {a : Value} (h : OccursIn limit code a) :
    a ∈ writableAtoms := by
  rintro n rfl
  obtain ⟨forms, hparse, form, hform, hn⟩ := h
  exact isWritable_of_inWordRange ((readableAt_of_parse hparse form hform).readable.inWordRange hn)

theorem World.SoundValue.isWritable {root : FrameId} {s : Store} {v : Value}
    (h : (World.of root writableAtoms).SoundValue s v) : v.isWritable = true := by
  induction h with
  | int h => exact h _ rfl
  | pair _ _ ihhead ihtail => rw [Value.isWritable, ihhead, ihtail, Bool.and_self]
  | _ => rfl

theorem World.SoundError.isWritable {root : FrameId} {s : Store} {e : EvalError}
    (h : (World.of root writableAtoms).SoundError s e) : e.isWritable = true := by
  unfold EvalError.isWritable
  cases hculprit : e.culprit? with
  | none => rfl
  | some v => exact (h v hculprit).isWritable

/-! ## Sessions -/

/-- What a run comes to cannot be written: its value, or the wording of its error. -/
def Unwritable : Except RunError Value → Prop
  | .ok v => v.isWritable = false
  | .error (.eval e) => e.isWritable = false
  | .error (.read _) => False

namespace Session

/-- A session that can come upon nothing but what can be written. -/
def IsWritable (session : Session) : Prop :=
  (World.of session.global writableAtoms).SoundSession session

theorem isWritable_start (limit : Int) : (start limit).IsWritable :=
  World.soundSession_openOn .empty limit (List.forall_mem_nil _) (List.forall_mem_nil _)

/-- A program leaves such a session as one, and comes to what can be written. -/
theorem IsWritable.run {session : Session} (h : session.IsWritable) (code : String) :
    (session.run code).2.IsWritable ∧ ¬ Unwritable (session.run code).1 := by
  have hcode : (World.of session.global writableAtoms).CoversCode session.state.guard.limit code :=
    World.coversCode_of fun _ => mem_writableAtoms
  obtain ⟨hafter, -, hanswer, hfailure⟩ := World.SoundSession.run h hcode
  have hglobal : (session.run code).2.global = session.global := hafter.global
  constructor
  · rw [IsWritable, hglobal]
    exact hafter
  · intro hunwritable
    cases houtcome : (session.run code).1 with
    | ok v =>
        rw [houtcome] at hunwritable
        exact Bool.false_ne_true (hunwritable.symm.trans (hanswer v houtcome).isWritable)
    | error e =>
        rw [houtcome] at hunwritable
        cases e with
        | read e => exact hunwritable
        | eval e =>
            exact Bool.false_ne_true (hunwritable.symm.trans (hfailure e houtcome).isWritable)

theorem IsWritable.value {session : Session} (h : session.IsWritable) {code : String} {v : Value}
    (hrun : (session.run code).1 = .ok v) : v.isWritable = true := by
  have hwritten := (h.run code).2
  rw [hrun] at hwritten
  exact Bool.eq_true_of_not_eq_false hwritten

end Session

end TableLisp

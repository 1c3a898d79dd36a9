import TableLisp.Proofs.Session.Simulation
import TableLisp.Table.Transform

/-!
# Bindings that no program mentions

A name is looked up only where a form mentions it, and no form is made while a program runs. So a
value that is bound to a name is out of reach of the programs that do not mention the name: with
another value, or with none, the sessions are the same but for this name, and stay so.
-/

namespace TableLisp

/-- Renames nothing and leaves one name out. -/
def Renaming.without (name : String) : Renaming where
  visible := {a | a ≠ name}
  apply := id
  injOn := Set.injOn_id _
  special _ _ := rfl

theorem Store.get?_globalFrame_without (s : Store) (before after : List (String × Value))
    (name : String) (v : Value) {a : String} (ha : a ≠ name) :
    (s.globalFrame (before ++ (name, v) :: after)).get? a =
      (s.globalFrame (before ++ after)).get? a := by
  simp only [get?_globalFrame, List.reverse_append, List.reverse_cons, List.lookup_append,
    Frame.lookup_cons_eq, if_neg ha, List.lookup_nil, Option.or_none]

namespace Session

/-- A session with one more name bound is the same as without it, but for this name. -/
theorem sameSession_without (s : State) {before after : List (String × Value)}
    (hplain : ∀ binding ∈ before ++ after, binding.2.closures = []) (name : String) (v : Value) :
    (Correspondence.since s.store (.without name)).SameSession
      (s.newSession.defineAll (before ++ (name, v) :: after))
      (s.newSession.defineAll (before ++ after)) := by
  refine Correspondence.sameSession_since s (.without name) ?_ ?_
  · rintro a a' ⟨ha, rfl⟩
    exact (s.store.get?_globalFrame_without before after name v ha).symm
  · intro binding hmem hvisible
    rcases List.mem_append.mp hmem with hbefore | hafter
    · exact hplain binding (List.mem_append_left after hbefore)
    · rcases List.mem_cons.mp hafter with rfl | hafter
      · exact absurd rfl hvisible
      · exact hplain binding (List.mem_append_right before hafter)

theorem runAll_without (s : State) (before after : List (String × Value))
    (hplain : ∀ binding ∈ before ++ after, binding.2.closures = []) {name : String}
    {codes : List String} (hunseen : ∀ code ∈ codes, ¬ Mentions s.guard.limit code name)
    (v : Value) :
    ((s.newSession.defineAll (before ++ (name, v) :: after)).runAll codes).1 =
      ((s.newSession.defineAll (before ++ after)).runAll codes).1 := by
  have hsession := sameSession_without s hplain name v
  have hvisible : ∀ code ∈ codes, ∀ a,
      Mentions (s.newSession.defineAll (before ++ (name, v) :: after)).state.guard.limit code a →
        a ≠ name := by
    rw [newSession_defineAll]
    rintro code hcode a hmentions rfl
    exact hunseen code hcode hmentions
  have hanswers : List.Forall₂ Eq _ _ :=
    (hsession.runAll rfl hvisible).imp fun _ _ h => (h.eq rfl Correspondence.since_code).symm
  rwa [List.forall₂_eq_eq_eq] at hanswers

/-- **What is not mentioned is not seen.** Programs that do not mention a name come to the same, be
it a value or an error, whatever the name is bound to when the session is opened, and also if it is
not bound at all. So a program that does not mention the table transforms every table into the
same. -/
theorem unmentioned_binding_unseen :
    (∀ (store : Store) (limit : Int) (before after : List (String × Value)) (name : String)
      (codes : List String), (∀ binding ∈ before ++ after, binding.2.closures = []) →
      (∀ code ∈ codes, ¬ Mentions limit code name) → ∀ v w : Value,
      let answers bindings := ((openOn store limit bindings).runAll codes).1
      answers (before ++ (name, v) :: after) = answers (before ++ (name, w) :: after) ∧
        answers (before ++ (name, v) :: after) = answers (before ++ after)) ∧
    (∀ (s : State) (program : String), ¬ Mentions s.guard.limit program tableName →
      ∀ table table' : Value, (transform s table program).1 = (transform s table' program).1) := by
  constructor
  · intro store limit before after name codes hplain hunseen v w answers
    have hwithout (v : Value) : answers (before ++ (name, v) :: after) = answers (before ++ after) :=
      runAll_without ⟨store, .ofLimit limit⟩ before after hplain hunseen v
    exact ⟨(hwithout v).trans (hwithout w).symm, hwithout v⟩
  · intro s program hunseen table table'
    have hrun (table : Value) : ((s.newSession.define tableName table).run program).1 =
        (s.newSession.run program).1 := by
      have hall := runAll_without s [] [] (List.forall_mem_nil _)
        (List.forall_mem_singleton.mpr hunseen) table
      exact (List.cons.inj hall).1
    have htransform (table : Value) : (transform s table program).1 =
        ((s.newSession.define tableName table).run program).1.mapError .ofRunError := rfl
    rw [htransform, htransform, hrun, hrun]

/-- A table, a procedure of another session or nothing at all: the programs do not mention it. -/
theorem unmentioned_table_unseen :
    let codes := ["(define f (lambda (x) (cons x 'tables)))", "(f one)", "(f 1 2)"]
    let answers bindings := ((openOn .empty 4 bindings).runAll codes).1
    (answers [("one", .int 1), ("table", .closure 0 ["x"])] =
          answers [("one", .int 1), ("table", .nil)] ∧
        answers [("one", .int 1), ("table", .closure 0 ["x"])] = answers [("one", .int 1)]) ∧
      (transform (.initial 4) .nil "(cons 1 2)").1 =
        (transform (.initial 4) (.int 7) "(cons 1 2)").1 :=
  ⟨unmentioned_binding_unseen.1 .empty 4 [("one", .int 1)] [] "table" _ (by decide)
      (by decide +kernel) (.closure 0 ["x"]) .nil,
    unmentioned_binding_unseen.2 (.initial 4) "(cons 1 2)" (by decide +kernel) .nil (.int 7)⟩

end Session

end TableLisp

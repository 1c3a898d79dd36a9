import TableLisp.Proofs.Session.Simulation

/-!
# Renamed programs

If a symbol of a program is replaced by a fresh one everywhere but in quotations, nothing changes
but the names in the code that the program leaves behind. Every form has the outcome that it had,
also those after a form that failed: the same error kind, or the same value with the same closures,
whose parameters and bodies are renamed (`RenamedOutcome`).

Neither symbol may be a special form or be bound when the session is opened, since these are names
that the program does not choose.
-/

namespace TableLisp

/-! ## One name for another -/

/-- Puts the name `z` in the place of `x`. -/
def replaced (x z a : String) : String :=
  if a = x then z else a

/-- The renaming that puts `z` in the place of `x` where there is no `z`. -/
def Renaming.replacing {x z : String} (hx : SpecialForm.ofName? x = none)
    (hz : SpecialForm.ofName? z = none) : Renaming where
  visible := {a | a ≠ z}
  apply := replaced x z
  injOn := by
    intro a ha b hb heq
    unfold replaced at heq
    split at heq <;> split at heq <;> simp_all
  special := by
    intro a _
    unfold replaced
    split
    · next heq => rw [heq, hx, hz]
    · rfl

/-- Renames the body of a code. -/
def Code.rename (f : String → String) (c : Code) : Code :=
  { c with body := c.body.map (Form.rename f) }

/-! ## Forms one by one -/

namespace Session

/-- Evaluates forms in order, whatever comes of each, and yields all outcomes with the sessions that
they leave. -/
def evalEach (session : Session) : List Form → List (Except EvalError Value × Session)
  | [] => []
  | form :: rest =>
    let step := session.evalForms [form]
    step :: step.2.evalEach rest

end Session

/-- The outcome of a form and that of the renamed form. Two values are equal once the parameters of
their closures are renamed, and the code of these closures is equal once it is renamed as well. -/
inductive RenamedOutcome (f : String → String) :
    Except EvalError Value × Session → Except EvalError Value × Session → Prop
  | value {v : Value} {after after' : Session}
      (hcodes : ∀ id ∈ v.closures, ∃ code, after.state.store.codes[id]? = some code ∧
        after'.state.store.codes[id]? = some (code.rename f))
      (htext : v.closures = [] → (v.rename f).text = v.text) :
      RenamedOutcome f (.ok v, after) (.ok (v.rename f), after')
  | error {e e' : EvalError} {after after' : Session} (hkind : e'.kind = e.kind) :
      RenamedOutcome f (.error e, after) (.error e', after')

namespace Correspondence

/-- Two steps of which both outcomes and the sessions that they leave are the same. -/
structure SameStep (ρ : Correspondence) (r r' : Except EvalError Value × Session) : Prop where
  outcome : ρ.SameExcept r.2.state.store.codes.size (ρ.SameValue r.2.state.store.codes.size)
    r.1 r'.1
  after : ρ.SameSession r.2 r'.2

theorem SameSession.evalEach {ρ : Correspondence} : ∀ {forms : List Form}
    {session session' : Session}, ρ.SameSession session session' →
      (∀ form ∈ forms, ρ.Covers form) →
      List.Forall₂ ρ.SameStep (session.evalEach forms)
        (session'.evalEach (forms.map (Form.rename ρ.apply)))
  | [], _, _, _, _ => .nil
  | form :: rest, session, session', h, hforms => by
      obtain ⟨hform, hrest⟩ := List.forall_mem_cons.mp hforms
      obtain ⟨houtcome, hafter⟩ := h.evalForms (List.forall_mem_singleton.mpr hform)
      exact .cons ⟨houtcome, hafter⟩ (hafter.evalEach hrest)

theorem SameStep.renamedOutcome {store : Store} {names : Renaming}
    {r r' : Except EvalError Value × Session} (h : (since store names).SameStep r r') :
    RenamedOutcome names.apply r r' := by
  obtain ⟨outcome, after⟩ := r
  obtain ⟨outcome', after'⟩ := r'
  obtain ⟨houtcome, hafter⟩ := h
  cases houtcome with
  | error he => exact .error he.kind_eq
  | @ok v v' hv =>
      obtain rfl : v' = v.rename names.apply := hv.eq_rename since_code
      refine .value (fun id hid => ?_) fun hnone => by rw [hv.eq_of_closures_eq_nil hnone]
      obtain ⟨hlt, id', hcode⟩ := hv.closures id hid
      obtain ⟨c, c', hc, hc', hsame⟩ := hafter.state.store.codes hcode hlt
      obtain rfl := since_code id id' hcode
      have hrenamed : c' = c.rename names.apply := by
        obtain ⟨body', frame'⟩ := c'
        obtain rfl : frame' = c.frame := hsame.frame.2
        obtain rfl := hsame.body
        rfl
      exact ⟨c, hc, hrenamed ▸ hc'⟩

end Correspondence

namespace Session

/-- **Renaming.** In a session that is opened without closures, a program and the same program with
`z` in the place of `x` have the same outcomes form by form, up to this renaming in the code and
the parameters of closures. Neither name is a special form or bound at the start, and `z` occurs
nowhere in the program. -/
theorem renamed_program_outcomes (store : Store) (limit : Int)
    {bindings : List (String × Value)} (hplain : ∀ binding ∈ bindings, binding.2.closures = [])
    {x z : String} (hx : SpecialForm.ofName? x = none) (hz : SpecialForm.ofName? z = none)
    (hxfree : (openOn store limit bindings).binds x = false)
    (hzfree : (openOn store limit bindings).binds z = false) {forms : List Form}
    (hreadable : ∀ form ∈ forms, form.Readable) (hfresh : z ∉ Form.symbolsAll forms) :
    List.Forall₂ (RenamedOutcome (replaced x z))
      ((openOn store limit bindings).evalEach forms)
      ((openOn store limit bindings).evalEach (forms.map (Form.rename (replaced x z)))) := by
  let names := Renaming.replacing hx hz
  rw [binds_openOn, Option.isSome_eq_false_iff, Option.isNone_iff_eq_none] at hxfree hzfree
  have hbound (a a' : String) (ha : names.Name a a') :
      (store.globalFrame bindings).get? a' = (store.globalFrame bindings).get? a := by
    obtain ⟨-, rfl⟩ := ha
    by_cases heq : a = x
    · subst heq
      rw [hxfree, ← hzfree]
      exact congrArg _ (if_pos rfl)
    · exact congrArg _ (if_neg heq)
  have hsession : (Correspondence.since store names).SameSession (openOn store limit bindings)
      (openOn store limit bindings) :=
    Correspondence.sameSession_since ⟨store, .ofLimit limit⟩ names hbound
      fun binding hmem _ => hplain binding hmem
  have hforms : ∀ form ∈ forms, names.Covers form := by
    refine fun form hform => ⟨hreadable form hform, ?_⟩
    rintro a ha rfl
    exact hfresh (Form.mem_symbolsAll.mpr ⟨form, hform, ha⟩)
  exact (hsession.evalEach hforms).imp fun _ _ h => h.renamedOutcome

/-- The name `x` is replaced as a parameter and as a global name, and stays where it is quoted. -/
theorem renamed_definition :
    let f := replaced "x" "y"
    let session := openOn .empty 4 [("table", .nil)]
    List.Forall₂ (RenamedOutcome f)
      (session.evalEach [.list [.sym "define", .sym "x", .list [.sym "lambda", .list [.sym "x"],
        .list [.sym "cons", .sym "x", .quoted (.sym "x")]]], .list [.sym "x", .sym "table"]])
      (session.evalEach [.list [.sym "define", .sym "y", .list [.sym "lambda", .list [.sym "y"],
        .list [.sym "cons", .sym "y", .quoted (.sym "x")]]], .list [.sym "y", .sym "table"]]) := by
  intro f session
  have hparse : parse 4 "(define x (lambda (x) (cons x 'x))) (x table)".toList =
      .ok [.list [.sym "define", .sym "x", .list [.sym "lambda", .list [.sym "x"],
        .list [.sym "cons", .sym "x", .quoted (.sym "x")]]], .list [.sym "x", .sym "table"]] := by
    decide +kernel
  exact renamed_program_outcomes .empty 4 (by decide) (by decide) (by decide) (by decide +kernel)
    (by decide +kernel) (fun form hform => (readableAt_of_parse hparse form hform).readable)
    (by decide +kernel)

end Session

end TableLisp

import TableLisp.Proofs.Eval.Correspondence

/-!
# Evaluations that are alike

Two evaluations are alike on two states if both come to values, or both to errors, that are the same
but for a correspondence, and leave states that are (`Correspondence.Alike`). What is done one after
the other is alike if its steps are: the second step is asked about on every pair of states that the
first one may leave (`Alike.bind`).
-/

namespace TableLisp

namespace Correspondence

/-! ## Errors that are the same -/

/-- Two errors that are the same but for a correspondence. -/
inductive SameError (ρ : Correspondence) (n : Nat) : EvalError → EvalError → Prop
  | unbound {a a' : String} (h : ρ.Name a a') : SameError ρ n (.unbound a) (.unbound a')
  | arity (callee : String) (wanted : Arity) (got : Nat) :
      SameError ρ n (.arity callee wanted got) (.arity callee wanted got)
  | notPair (op : Builtin) {v v' : Value} (h : ρ.SameValue n v v') :
      SameError ρ n (.notPair op v) (.notPair op v')
  | notList (op : Builtin) {v v' : Value} (h : ρ.SameValue n v v') :
      SameError ρ n (.notList op v) (.notList op v')
  | notAssociation : SameError ρ n .notAssociation .notAssociation
  | notKeyFunction {v v' : Value} (h : ρ.SameValue n v v') :
      SameError ρ n (.notKeyFunction v) (.notKeyFunction v')
  | notKey {v v' : Value} (h : ρ.SameValue n v v') : SameError ρ n (.notKey v) (.notKey v')
  | notCallable {v v' : Value} (h : ρ.SameValue n v v') :
      SameError ρ n (.notCallable v) (.notCallable v')
  | dottedCall : SameError ρ n .dottedCall .dottedCall
  | definitionTarget : SameError ρ n .definitionTarget .definitionTarget
  | parameterList : SameError ρ n .parameterList .parameterList
  | parameterName : SameError ρ n .parameterName .parameterName
  | duplicateParameter {a a' : String} (h : ρ.Name a a') :
      SameError ρ n (.duplicateParameter a) (.duplicateParameter a')
  | tooDeep (limit : Int) : SameError ρ n (.tooDeep limit) (.tooDeep limit)

/-- Two results that are the same but for a correspondence. -/
inductive SameExcept (ρ : Correspondence) (n : Nat) (V : α → β → Prop) :
    Except EvalError α → Except EvalError β → Prop
  | ok {a : α} {b : β} (h : V a b) : SameExcept ρ n V (.ok a) (.ok b)
  | error {e e' : EvalError} (h : ρ.SameError n e e') : SameExcept ρ n V (.error e) (.error e')

variable {ρ : Correspondence} {n : Nat}

namespace SameError

variable {e e' : EvalError}

theorem isWritable_eq (h : ρ.SameError n e e') : e'.isWritable = e.isWritable := by
  cases h with
  | notPair _ h | notList _ h | notKeyFunction h | notKey h | notCallable h =>
      exact h.isWritable_eq
  | _ => rfl

theorem kind_eq (h : ρ.SameError n e e') : e'.kind = e.kind := by
  have hworded : e'.wordedKind = e.wordedKind := by
    cases h <;> rfl
  rw [EvalError.kind, EvalError.kind, h.isWritable_eq, hworded]

/-- If no name is renamed, the two errors have the same wording. -/
theorem message_eq (hnames : ρ.apply = id) (h : ρ.SameError n e e') :
    e'.message = e.message := by
  cases h with
  | unbound h | duplicateParameter h => rw [h.2, hnames, id]
  | notPair _ h | notList _ h | notKeyFunction h | notKey h | notCallable h =>
      have htext := h.text_eq hnames
      dsimp only [EvalError.message]
      rw [htext]
  | _ => rfl

/-- If no closure changes its number either, the two errors are one. -/
theorem eq (hnames : ρ.apply = id) (hcodes : ∀ id id', ρ.code id id' → id' = id)
    (h : ρ.SameError n e e') : e' = e := by
  cases h with
  | unbound h | duplicateParameter h => rw [h.2, hnames, id]
  | notPair _ h | notList _ h | notKeyFunction h | notKey h | notCallable h =>
      rw [h.eq_rename hcodes, hnames, Value.rename_id]
  | _ => rfl

end SameError

/-! ## States and results -/

/-- Two states with the same guard over stores that are the same. -/
structure SameState (ρ : Correspondence) (s s' : State) : Prop where
  store : ρ.SameStore s.store s'.store
  guard : s'.guard = s.guard

theorem SameState.withGuard {s s' : State} (h : ρ.SameState s s') (guard : Guard) :
    ρ.SameState { s with guard } { s' with guard } :=
  ⟨h.store, rfl⟩

/-- Two results of which the first was reached from the state `s`. Both are values that `V` relates,
given how many closures there are, or both are errors that are the same. -/
inductive Alike (ρ : Correspondence) (V : Nat → α → β → Prop) (s : State) :
    EStateM.Result EvalError State α → EStateM.Result EvalError State β → Prop
  | ok {a : α} {b : β} {t t' : State} (hab : V t.store.codes.size a b) (hstate : ρ.SameState t t')
      (hext : s.store.Extends t.store) : Alike ρ V s (.ok a t) (.ok b t')
  | error {e e' : EvalError} {t t' : State} (he : ρ.SameError t.store.codes.size e e')
      (hstate : ρ.SameState t t') (hext : s.store.Extends t.store) :
      Alike ρ V s (.error e t) (.error e' t')

namespace Alike

variable {V : Nat → α → β → Prop} {W : Nat → γ → δ → Prop} {s s' : State}

theorem pure (hstate : ρ.SameState s s') {a : α} {b : β} (hab : V s.store.codes.size a b) :
    ρ.Alike V s ((pure a : Eval α) s) ((pure b : Eval β) s') :=
  .ok hab hstate (refl_of Store.Extends s.store)

theorem throw (hstate : ρ.SameState s s') {e e' : EvalError}
    (he : ρ.SameError s.store.codes.size e e') :
    ρ.Alike V s ((throw e : Eval α) s) ((throw e' : Eval β) s') :=
  .error he hstate (refl_of Store.Extends s.store)

theorem ofExcept (hstate : ρ.SameState s s') {r : Except EvalError α} {r' : Except EvalError β}
    (h : ρ.SameExcept s.store.codes.size (V s.store.codes.size) r r') :
    ρ.Alike V s (Eval.ofExcept r s) (Eval.ofExcept r' s') := by
  cases h with
  | ok hab => exact pure hstate hab
  | error he => exact throw hstate he

theorem of_extends {t : State} {r : EStateM.Result EvalError State α}
    {r' : EStateM.Result EvalError State β} (hext : s.store.Extends t.store)
    (h : ρ.Alike V t r r') : ρ.Alike V s r r' := by
  cases h with
  | ok hab hstate hext' => exact .ok hab hstate (trans_of Store.Extends hext hext')
  | error he hstate hext' => exact .error he hstate (trans_of Store.Extends hext hext')

theorem bind {x : Eval α} {x' : Eval β} {f : α → Eval γ} {f' : β → Eval δ}
    (hx : ρ.Alike V s (x s) (x' s'))
    (hf : ∀ {a b t t'}, s.store.Extends t.store → ρ.SameState t t' → V t.store.codes.size a b →
      ρ.Alike W t (f a t) (f' b t')) : ρ.Alike W s ((x >>= f) s) ((x' >>= f') s') := by
  simp only [Bind.bind, EStateM.bind]
  generalize x s = r at hx
  generalize x' s' = r' at hx
  cases hx with
  | ok hab hstate hext => exact (hf hext hstate hab).of_extends hext
  | error he hstate hext => exact .error he hstate hext

theorem nested {x : Eval α} {x' : Eval β} (hstate : ρ.SameState s s')
    (h : ∀ guard, ρ.Alike V { s with guard } (x { s with guard }) (x' { s' with guard })) :
    ρ.Alike V s (Eval.nested x s) (Eval.nested x' s') := by
  simp only [Eval.nested, hstate.guard]
  cases henter : s.guard.enter? with
  | none => exact .error (.tooDeep _) hstate (refl_of Store.Extends s.store)
  | some guard =>
      have hx := h guard
      dsimp only
      generalize x { s with guard } = r at hx
      generalize x' { s' with guard } = r' at hx
      cases hx with
      | ok hab hstate' hext =>
          exact .ok hab ⟨hstate'.store, congrArg Guard.leave hstate'.guard⟩ hext
      | error he hstate' hext =>
          exact .error he ⟨hstate'.store, congrArg Guard.leave hstate'.guard⟩ hext

end Alike

end Correspondence

end TableLisp

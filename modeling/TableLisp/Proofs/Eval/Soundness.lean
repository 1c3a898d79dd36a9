import Mathlib.Data.List.Nodup
import TableLisp.Proofs.Eval.Compositional
import TableLisp.Proofs.Eval.World

/-!
# Evaluation in a world

Whatever is evaluated in a frame of a session, the store stays sound for the session's world, also
where the evaluation fails, and what it comes to is a sound value, or an error about one
(`World.evaluate_sound`). The same holds of every call of a sound value on sound arguments
(`World.applyValue_sound`).

The proof goes along the evaluator. The one primitive that makes atoms of its own is the grouping,
whose keys become strings; these are supplied together with the atoms that they are made of.
-/

namespace TableLisp

open Text

/-- The names that a parameter list is read as are all different. -/
theorem nodup_parameterNames : ∀ {items : List Form} {seen formals : List String}, seen.Nodup →
    parameterNames seen items = .ok formals → formals.Nodup
  | [], seen, formals, hseen, h => by
      rw [parameterNames, Except.ok.injEq] at h
      exact h ▸ List.nodup_reverse.mpr hseen
  | .sym name :: rest, seen, formals, hseen, h => by
      rw [parameterNames] at h
      split at h
      · cases h
      · next hnew =>
          rw [List.contains_iff_mem] at hnew
          exact nodup_parameterNames (List.nodup_cons.mpr ⟨hnew, hseen⟩) h
  | .const _ :: _, _, _, _, h => by cases h
  | .list _ :: _, _, _, _, h => by cases h
  | .dotted _ _ :: _, _, _, _, h => by cases h

theorem nodup_parameters {params : Form} {formals : List String}
    (h : parameters params = .ok formals) : formals.Nodup := by
  cases params with
  | const v =>
      cases v with
      | nil =>
          cases h
          exact List.nodup_nil
      | _ => cases h
  | list items => exact nodup_parameterNames List.nodup_nil h
  | _ => cases h

namespace World

variable {ω : World}

/-! ## Results -/

/-- The errors of a parameter list are about no value. -/
theorem culprit?_of_parameterNames {e : EvalError} : ∀ {items : List Form} {seen : List String},
    parameterNames seen items = .error e → e.culprit? = none
  | .sym name :: rest, seen, h => by
      rw [parameterNames] at h
      split at h
      · cases h
        rfl
      · exact culprit?_of_parameterNames h
  | .const _ :: _, _, h | .list _ :: _, _, h | .dotted _ _ :: _, _, h => by
      cases h
      rfl

theorem culprit?_of_parameters {params : Form} {e : EvalError} (h : parameters params = .error e) :
    e.culprit? = none := by
  fun_cases parameters params with
  | case1 => cases h
  | case2 items => exact culprit?_of_parameterNames h
  | case3 =>
      rw [parameters] at h
      · cases h
        rfl
      all_goals assumption

/-- A result that was reached from the state `s` and leaves a sound store. If it is a value, `V`
says what is known of it in this store, and if it is an error, it is about a sound value. -/
inductive Sound (ω : World) (V : Store → α → Prop) (s : State) :
    EStateM.Result EvalError State α → Prop
  | ok {a : α} {t : State} (ha : V t.store a) (hstore : ω.SoundStore t.store)
      (hext : s.store.Extends t.store) : Sound ω V s (.ok a t)
  | error {e : EvalError} {t : State} (he : ω.SoundError t.store e)
      (hstore : ω.SoundStore t.store) (hext : s.store.Extends t.store) : Sound ω V s (.error e t)

namespace Sound

variable {V : Store → α → Prop} {W : Store → β → Prop} {s t : State}

theorem pure (hstore : ω.SoundStore s.store) {a : α} (ha : V s.store a) :
    ω.Sound V s ((pure a : Eval α) s) :=
  .ok ha hstore (refl_of Store.Extends s.store)

theorem throw (hstore : ω.SoundStore s.store) {e : EvalError} (he : ω.SoundError s.store e) :
    ω.Sound V s ((throw e : Eval α) s) :=
  .error he hstore (refl_of Store.Extends s.store)

theorem ofExcept (hstore : ω.SoundStore s.store) {r : Except EvalError α}
    (h : ∀ a, r = .ok a → V s.store a) (he : ∀ e, r = .error e → ω.SoundError s.store e) :
    ω.Sound V s (Eval.ofExcept r s) := by
  cases r with
  | ok a => exact pure hstore (h a rfl)
  | error e => exact throw hstore (he e rfl)

theorem of_extends {r : EStateM.Result EvalError State α} (hext : s.store.Extends t.store)
    (h : ω.Sound V t r) : ω.Sound V s r := by
  cases h with
  | ok ha hstore hext' => exact .ok ha hstore (trans_of Store.Extends hext hext')
  | error he hstore hext' => exact .error he hstore (trans_of Store.Extends hext hext')

theorem bind {x : Eval α} {f : α → Eval β} (hx : ω.Sound V s (x s))
    (hf : ∀ {a t}, s.store.Extends t.store → ω.SoundStore t.store → V t.store a →
      ω.Sound W t (f a t)) : ω.Sound W s ((x >>= f) s) := by
  simp only [Bind.bind, EStateM.bind]
  generalize x s = r at hx
  cases hx with
  | ok ha hstore hext => exact (hf hext hstore ha).of_extends hext
  | error he hstore hext => exact .error he hstore hext

theorem nested {x : Eval α} (hstore : ω.SoundStore s.store)
    (h : ∀ guard, ω.Sound V { s with guard } (x { s with guard })) :
    ω.Sound V s (Eval.nested x s) := by
  simp only [Eval.nested]
  cases s.guard.enter? with
  | none => exact throw hstore (.of_none rfl)
  | some guard =>
      have hx := h guard
      dsimp only
      generalize x { s with guard } = r at hx
      cases hx with
      | ok ha hstore' hext => exact .ok ha hstore' hext
      | error he hstore' hext => exact .error he hstore' hext

end Sound

/-! ## Sequences -/

/-- A way of evaluating covered forms in frames of the session that comes to sound results. -/
def SoundEvaluator (ω : World) (eval : Evaluator) : Prop :=
  ∀ {form : Form} {frame : FrameId} {s : State}, ω.Covers form → ω.SoundStore s.store →
    ω.Inside s.store frame → ω.Sound ω.SoundValue s (eval form frame s)

/-- A way of calling with one argument that comes to sound results. -/
def SoundCall (ω : World) (call : Value → Value → Eval Value) : Prop :=
  ∀ {fn arg : Value} {s : State}, ω.SoundStore s.store → ω.SoundValue s.store fn →
    ω.SoundValue s.store arg → ω.Sound ω.SoundValue s (call fn arg s)

section

variable {eval : Evaluator} (h : ω.SoundEvaluator eval) {frame : FrameId}

include h

theorem evalAll_sound : ∀ {forms : List Form} {s : State}, (∀ form ∈ forms, ω.Covers form) →
    ω.SoundStore s.store → ω.Inside s.store frame →
    ω.Sound (fun t vs => ∀ v ∈ vs, ω.SoundValue t v) s (evalAll eval frame forms s)
  | [], _, _, hstore, _ => .pure hstore (List.forall_mem_nil _)
  | form :: rest, _, hforms, hstore, hframe => by
      obtain ⟨hform, hrest⟩ := List.forall_mem_cons.mp hforms
      refine (h hform hstore hframe).bind fun hext hstore hv => ?_
      refine (evalAll_sound hrest hstore (hframe.mono hext)).bind fun hext hstore hvs => ?_
      exact .pure hstore (List.forall_mem_cons.mpr ⟨hv.mono hext, hvs⟩)

theorem evalBody_sound : ∀ {forms : List Form} {s : State} {last : Value},
    (∀ form ∈ forms, ω.Covers form) → ω.SoundStore s.store → ω.Inside s.store frame →
    ω.SoundValue s.store last →
    ω.Sound ω.SoundValue s (evalBody eval frame last forms s)
  | [], _, _, _, hstore, _, hlast => .pure hstore hlast
  | form :: rest, _, _, hforms, hstore, hframe, _ => by
      obtain ⟨hform, hrest⟩ := List.forall_mem_cons.mp hforms
      refine (h hform hstore hframe).bind fun hext hstore hv => ?_
      exact evalBody_sound hrest hstore (hframe.mono hext) hv

end

/-! ## Primitives -/

/-- The text of a grouping key is supplied with what it is made of. -/
theorem keyText_mem {s : Store} {v : Value} (hv : ω.SoundValue s v) {key : String}
    (h : Builtin.keyText v = .ok key) : key ∈ ω.strs := by
  cases hv with
  | str htext => exact Except.ok.inj h ▸ htext
  | sym hname => exact Except.ok.inj h ▸ ω.name_mem hname
  | int hn =>
      rw [Builtin.keyText] at h
      split at h
      · exact Except.ok.inj h ▸ ω.text_mem hn
      · cases h
  | _ => cases h

/-- What has no key text is what the error is about. -/
theorem culprit?_of_keyText {v : Value} {e : EvalError} (h : Builtin.keyText v = .error e) :
    e.culprit? = some v := by
  revert h
  fun_cases Builtin.keyText v <;> rintro ⟨⟩ <;> rfl

theorem culprit?_of_associate {key list : Value} {e : EvalError}
    (h : Builtin.associate key list = .error e) : e.culprit? = none := by
  induction list with
  | nil => cases h
  | pair head rest _ ih =>
      cases head with
      | pair k v =>
          rw [Builtin.associate] at h
          split at h
          · cases h
          · exact ih h
      | _ => exact ih h
  | _ =>
      cases h
      rfl

/-- What is found on an association list is part of it. -/
theorem associate_sound {s : Store} {key list v : Value} (hlist : ω.SoundValue s list)
    (h : Builtin.associate key list = .ok v) : ω.SoundValue s v := by
  induction hlist with
  | nil => exact Except.ok.inj h ▸ .nil
  | pair hhead _ _ ih =>
      cases hhead with
      | pair hk hw =>
          rw [Builtin.associate] at h
          split at h
          · exact Except.ok.inj h ▸ .pair hk hw
          · exact ih h
      | _ => exact ih h
  | _ => cases h

/-- A row with its key. -/
def SoundRow (ω : World) (s : Store) (row : String × Value) : Prop :=
  row.1 ∈ ω.strs ∧ ω.SoundValue s row.2

theorem groupRows_sound {s : Store} {rows : List (String × Value)}
    (h : ∀ row ∈ rows, ω.SoundRow s row) :
    ω.SoundValue s (Builtin.groupsValue (Builtin.groupRows rows)) := by
  refine .ofList ?_
  simp only [Builtin.groupRows, List.map_map, List.forall_mem_map, List.mem_eraseDups]
  intro row hrow
  refine .pair (.str (h row hrow).1) (.ofList ?_)
  rw [List.forall_mem_map]
  exact fun member hmember => (h member (List.mem_filter.mp hmember).1).2

section

variable {call : Value → Value → Eval Value} (h : ω.SoundCall call)

include h

theorem keyRows_sound {fn : Value} : ∀ {rows : List Value} {s : State}, ω.SoundStore s.store →
    ω.SoundValue s.store fn → (∀ row ∈ rows, ω.SoundValue s.store row) →
    ω.Sound (fun t keyed => ∀ row ∈ keyed, ω.SoundRow t row) s
      (Builtin.keyRows (call fn) rows s)
  | [], _, hstore, _, _ => .pure hstore (List.forall_mem_nil _)
  | row :: rest, _, hstore, hfn, hrows => by
      obtain ⟨hrow, hrest⟩ := List.forall_mem_cons.mp hrows
      refine (h hstore hfn hrow).bind fun hext hstore hv => ?_
      have hkey : ω.Sound (fun _ key => key ∈ ω.strs) _ (Eval.ofExcept _ _) :=
        .ofExcept hstore (fun _ => keyText_mem hv) fun _ hrefused =>
          .of_culprit? (culprit?_of_keyText hrefused) hv
      refine hkey.bind fun hext' hstore hkey => ?_
      have hext := trans_of Store.Extends hext hext'
      refine (keyRows_sound hstore (hfn.mono hext) (SoundValue.mono_all hext hrest)).bind ?_
      intro keyed t hext' hstore hkeyed
      have hrow := hrow.mono (trans_of Store.Extends hext hext')
      exact .pure hstore (List.forall_mem_cons.mpr ⟨⟨hkey, hrow⟩, hkeyed⟩)

theorem groupTable_sound {s : State} (hstore : ω.SoundStore s.store) {table fn : Value}
    (htable : ω.SoundValue s.store table) (hfn : ω.SoundValue s.store fn) :
    ω.Sound ω.SoundValue s (Builtin.groupTable call table fn s) := by
  rw [Builtin.groupTable_eq, Value.toList?]
  cases fn.isProcedure with
  | false => exact .throw hstore (.of_culprit? rfl hfn)
  | true =>
      cases table.isProper with
      | false => exact .throw hstore (.of_culprit? rfl htable)
      | true =>
          have hkeyed := keyRows_sound h hstore hfn htable.elements
          exact hkeyed.bind fun _ hstore hrows => .pure hstore (groupRows_sound hrows)

/-- A primitive comes to parts of its arguments, to a pair of them or to a truth value, or it groups
them. -/
theorem run_sound {s : State} (hstore : ω.SoundStore s.store) (op : Builtin) {args : List Value}
    (hargs : ∀ arg ∈ args, ω.SoundValue s.store arg) :
    ω.Sound ω.SoundValue s (op.run call args s) := by
  fun_cases Builtin.run call op args with
  | case1 head tail =>
      simp only [List.forall_mem_cons] at hargs
      exact .pure hstore (.pair hargs.1 hargs.2.1)
  | case2 head tail =>
      cases hargs _ (List.mem_singleton_self _) with
      | pair hhead _ => exact .pure hstore hhead
  | case4 head tail =>
      cases hargs _ (List.mem_singleton_self _) with
      | pair _ htail => exact .pure hstore htail
  | case6 | case7 => exact .pure hstore (.bool _)
  | case8 key list =>
      simp only [List.forall_mem_cons] at hargs
      exact .ofExcept hstore (fun _ => associate_sound hargs.2.1)
        fun _ h => .of_none (culprit?_of_associate h)
  | case9 table fn =>
      simp only [List.forall_mem_cons] at hargs
      exact groupTable_sound h hstore hargs.1 hargs.2.1
  | case3 | case5 => exact .throw hstore (.of_culprit? rfl (hargs _ (List.mem_singleton_self _)))
  | case10 => exact .throw hstore (.of_none rfl)

end

/-! ## Calls -/

/-- Arguments are bound to parameters and to nothing else. -/
theorem lookup_zip {p : Value → Prop} {formals : List String} {args : List Value}
    (hargs : ∀ arg ∈ args, p arg) (name : String) :
    ∀ v, (formals.zip args).lookup name = some v → p v := by
  intro v hv
  obtain ⟨before, after, hzip, -⟩ := List.lookup_eq_some_iff.mp hv
  have hmem : (name, v) ∈ formals.zip args := hzip ▸ List.mem_append_right _ List.mem_cons_self
  exact hargs v (List.of_mem_zip hmem).2

section

variable {eval : Evaluator} (h : ω.SoundEvaluator eval) {s : State}

include h

theorem applyClosure_sound (hstore : ω.SoundStore s.store) {id : Nat} {formals : List String}
    {args : List Value} (hfn : ω.SoundValue s.store (.closure id formals))
    (hargs : ∀ arg ∈ args, ω.SoundValue s.store arg) :
    ω.Sound ω.SoundValue s (applyClosure eval id formals args s) := by
  rw [applyClosure_run]
  split
  · exact .throw hstore (.of_none rfl)
  · cases hfn with
    | @closure _ _ code hcode hsound _ =>
        rw [hcode]
        let start := (s.store.newFrame (formals.zip args) (some code.frame)).2
        have hext : s.store.Extends start := s.store.extends_newFrame _ _
        have hfresh : ω.Inside start s.store.frames.size :=
          ⟨Nat.le_of_lt hstore.root, by simp [start, Store.newFrame]⟩
        have hstart : ω.SoundStore start := hstore.newFrame (lookup_zip hargs) hsound.frame
        have hbody : ω.Sound ω.SoundValue { s with store := start } _ :=
          evalBody_sound h hsound.covered hstart hfresh .nil
        exact hbody.of_extends hext

theorem applyWith_sound {call : Value → Value → Eval Value} (hcall : ω.SoundCall call)
    (hstore : ω.SoundStore s.store) {fn : Value} {args : List Value}
    (hfn : ω.SoundValue s.store fn) (hargs : ∀ arg ∈ args, ω.SoundValue s.store arg) :
    ω.Sound ω.SoundValue s (applyWith eval call fn args s) := by
  cases fn with
  | closure id formals => exact applyClosure_sound h hstore hfn hargs
  | primitive id op => exact run_sound hcall hstore op hargs
  | _ => exact .throw hstore (.of_culprit? rfl hfn)

theorem apply_sound (hstore : ω.SoundStore s.store) {fn : Value} {args : List Value}
    (hfn : ω.SoundValue s.store fn) (hargs : ∀ arg ∈ args, ω.SoundValue s.store arg)
    (caller : FrameId) : ω.Sound ω.SoundValue s (apply eval fn args caller s) := by
  have hinner : ω.SoundCall fun _ v => pure v := fun hstore _ harg => .pure hstore harg
  refine applyWith_sound h (fun hstore hfn harg => ?_) hstore hfn hargs
  exact applyWith_sound h hinner hstore hfn (List.forall_mem_singleton.mpr harg)

end

/-! ## Special forms -/

theorem lookup_sound {s : State} (hstore : ω.SoundStore s.store) {frame : FrameId}
    (hframe : ω.Inside s.store frame) (name : String) :
    ω.Sound ω.SoundValue s (Eval.lookup frame name s) := by
  simp only [Eval.lookup_eq, Eval.withStore]
  cases hv : s.store.lookup? frame name with
  | none => exact .throw hstore (.of_none rfl)
  | some v => exact .pure hstore (hstore.lookup? hframe name v hv)

theorem define_sound {s : State} (hstore : ω.SoundStore s.store) (frame : FrameId)
    (name : String) {v : Value} (hv : ω.SoundValue s.store v) :
    ω.Sound (fun _ _ => True) s (Eval.define frame name v s) :=
  .ok trivial (hstore.define frame name hv) (s.store.extends_define frame name v)

theorem newClosure_sound {s : State} (hstore : ω.SoundStore s.store) {formals : List String}
    (hnodup : formals.Nodup) {code : Code} (hcode : ω.SoundCode s.store code) :
    ω.Sound ω.SoundValue s (Eval.onStore (·.newClosure formals code) s) := by
  obtain ⟨hstore, hv⟩ := hstore.newClosure hcode hnodup
  exact .ok hv hstore (s.store.extends_newClosure formals code)

section

variable {eval : Evaluator} (h : ω.SoundEvaluator eval) {s : State}
  (hstore : ω.SoundStore s.store) {frame : FrameId} (hframe : ω.Inside s.store frame)

include h hstore hframe

theorem evalSpecial_sound (special : SpecialForm) {operands : List Form}
    (hoperands : ∀ operand ∈ operands, ω.Covers operand) :
    ω.Sound ω.SoundValue s (evalSpecial eval frame special operands s) := by
  obtain ⟨datum, rfl, rfl⟩ | ⟨name, value, rfl, rfl⟩ | ⟨params, first, rest, rfl, rfl⟩ |
    ⟨test, yes, no, rfl, rfl⟩ | ⟨e, hplain, hrefused⟩ := evalSpecial_shapes special operands
  · exact .pure hstore (.toValue (hoperands datum (List.mem_singleton_self _)))
  · refine (h (hoperands value (by simp)) hstore hframe).bind fun _ hstore hv => ?_
    refine (define_sound hstore frame name hv).bind fun hext hstore _ => ?_
    exact .pure hstore (hv.mono hext)
  · have hformals : ω.Sound (fun _ (formals : List String) => formals.Nodup) s
        (Eval.ofExcept (parameters params) s) := .ofExcept hstore (fun _ => nodup_parameters)
          fun _ h => .of_none (culprit?_of_parameters h)
    refine hformals.bind fun hext hstore hnodup => ?_
    have hbody := (List.forall_mem_cons.mp hoperands).2
    exact newClosure_sound hstore hnodup ⟨hframe.mono hext, List.cons_ne_nil _ _, hbody⟩
  · refine (h (hoperands test (by simp)) hstore hframe).bind fun hext hstore _ => ?_
    have hframe := hframe.mono hext
    split
    · exact h (hoperands yes (by simp)) hstore hframe
    · exact h (hoperands no (by simp)) hstore hframe
  · rw [hrefused]
    exact .throw hstore (.of_none hplain)

/-! ## Forms -/

theorem evalParts_sound {form : Form} (hform : ω.Covers form) :
    ω.Sound ω.SoundValue s (evalParts eval form frame s) := by
  fun_cases evalParts eval form frame with
  | case1 v => exact .pure hstore (.toValue hform)
  | case2 name => exact lookup_sound hstore hframe name
  | case3 => exact .throw hstore (.of_none rfl)
  | case4 => exact .pure hstore .nil
  | case5 head operands special hhead =>
      have hoperands := (List.forall_mem_cons.mp hform.items).2
      exact evalSpecial_sound h hstore hframe special hoperands
  | case6 head operands hhead =>
      obtain ⟨hfirst, hoperands⟩ := List.forall_mem_cons.mp hform.items
      refine (h hfirst hstore hframe).bind fun hext hstore hfn => ?_
      have hframe := hframe.mono hext
      refine (evalAll_sound h hoperands hstore hframe).bind fun hext hstore hargs => ?_
      exact apply_sound h hstore (hfn.mono hext) hargs frame

end

theorem evalWith_sound : ∀ room : Nat, ω.SoundEvaluator (evalWith room)
  | 0, _, _, s, _, hstore, _ =>
      .nested hstore fun guard => .pure (s := { s with guard }) hstore SoundValue.nil
  | room + 1, _, _, s, hform, hstore, hframe =>
      .nested hstore fun guard =>
        evalParts_sound (s := { s with guard }) (evalWith_sound room) hstore hframe hform

/-- Covered forms that are evaluated in frames of the session come to sound results. -/
theorem evaluate_sound : ω.SoundEvaluator evaluate :=
  fun {_ _ s} hform hstore hframe => evalWith_sound s.guard.room hform hstore hframe

/-- Calls of sound values on sound arguments come to sound results. -/
theorem applyValue_sound {s : State} (hstore : ω.SoundStore s.store) {fn : Value}
    {args : List Value} (hfn : ω.SoundValue s.store fn)
    (hargs : ∀ arg ∈ args, ω.SoundValue s.store arg) (caller : FrameId) :
    ω.Sound ω.SoundValue s (applyValue fn args caller s) :=
  apply_sound (evalWith_sound s.guard.room) hstore hfn hargs caller

end World

end TableLisp

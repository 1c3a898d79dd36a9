import TableLisp.Proofs.Eval.Alike

/-!
# Runs side by side

On two stores that are the same but for a correspondence, the evaluation of a form and of its
renaming go the same way. The frames and closures that are made on the way correspond as well,
because they are made in the same order on both sides.

The proof goes along the evaluator: every loop, every primitive, every call and every special form
does on both sides what its parts do, and at last `evaluate_same` and `applyValue_alike` count down
the room of both runs together.
-/

namespace TableLisp

/-! ## Wrong numbers of arguments -/

/-- A primitive refuses a wrong number of arguments. -/
theorem Builtin.run_refused (call : Value → Value → Eval Value) {op : Builtin} {args : List Value}
    (h : args.length ≠ op.arity) :
    op.run call args = throw (.arity op.name (.exactly op.arity) args.length) := by
  fun_cases Builtin.run call op args with
  | case10 => rfl
  | _ => exact absurd rfl h

/-- The numbers of arguments that are as many as wanted. -/
def Arity.Allows : Arity → Nat → Prop
  | exactly n, m => m = n
  | atLeast n, m => n ≤ m

/-- How many operands a special form takes. -/
def SpecialForm.arity : SpecialForm → Arity
  | quote => .exactly 1
  | define => .exactly 2
  | lambda => .atLeast 2
  | conditional => .exactly 3

/-- A special form refuses a wrong number of operands. -/
theorem evalSpecial_refused {eval : Evaluator} {frame : FrameId} {special : SpecialForm}
    {operands : List Form} (h : ¬ special.arity.Allows operands.length) :
    evalSpecial eval frame special operands =
      throw (.arity special.name special.arity operands.length) := by
  fun_cases evalSpecial eval frame special operands with
  | case1 | case2 | case3 | case5 => exact absurd rfl h
  | case4 => exact absurd (Nat.le_add_left ..) h
  | _ => rfl

namespace Correspondence

variable {ρ : Correspondence} {n : Nat}

/-! ## Sequences -/

/-- Two ways of evaluating under which a form and its renaming come to the same. -/
def SameEvaluator (ρ : Correspondence) (eval eval' : Evaluator) : Prop :=
  ∀ {form : Form} {frame frame' : FrameId} {s s' : State}, ρ.Covers form → ρ.SameState s s' →
    ρ.SameId s.store frame frame' →
    ρ.Alike ρ.SameValue s (eval form frame s) (eval' (form.rename ρ.apply) frame' s')

/-- Two ways of calling with one argument that come to the same. -/
def SameCall (ρ : Correspondence) (call call' : Value → Value → Eval Value) : Prop :=
  ∀ {fn fn' arg arg' : Value} {s s' : State}, ρ.SameState s s' →
    ρ.SameValue s.store.codes.size fn fn' → ρ.SameValue s.store.codes.size arg arg' →
    ρ.Alike ρ.SameValue s (call fn arg s) (call' fn' arg' s')

section

variable {eval eval' : Evaluator} (h : ρ.SameEvaluator eval eval') {frame frame' : FrameId}

include h

theorem evalAll_alike : ∀ {forms : List Form} {s s' : State}, (∀ form ∈ forms, ρ.Covers form) →
    ρ.SameState s s' → ρ.SameId s.store frame frame' →
    ρ.Alike (fun n => List.Forall₂ (ρ.SameValue n)) s (evalAll eval frame forms s)
      (evalAll eval' frame' (forms.map (Form.rename ρ.apply)) s')
  | [], _, _, _, hstate, _ => .pure hstate .nil
  | form :: rest, _, _, hforms, hstate, hframe => by
      obtain ⟨hform, hrest⟩ := List.forall_mem_cons.mp hforms
      refine (h hform hstate hframe).bind fun hext hstate hv => ?_
      refine (evalAll_alike hrest hstate (hframe.mono hext)).bind fun hext hstate hvs => ?_
      exact .pure hstate (.cons (hv.mono hext.size) hvs)

theorem evalBody_alike : ∀ {forms : List Form} {s s' : State} {last last' : Value},
    (∀ form ∈ forms, ρ.Covers form) → ρ.SameState s s' → ρ.SameId s.store frame frame' →
    ρ.SameValue s.store.codes.size last last' →
    ρ.Alike ρ.SameValue s (evalBody eval frame last forms s)
      (evalBody eval' frame' last' (forms.map (Form.rename ρ.apply)) s')
  | [], _, _, _, _, _, hstate, _, hlast => .pure hstate hlast
  | form :: rest, _, _, _, _, hforms, hstate, hframe, _ => by
      obtain ⟨hform, hrest⟩ := List.forall_mem_cons.mp hforms
      refine (h hform hstate hframe).bind fun hext hstate hv => ?_
      exact evalBody_alike hrest hstate (hframe.mono hext) hv

end

/-! ## Primitives -/

theorem keyText_same {v v' : Value} (h : ρ.SameValue n v v') :
    ρ.SameExcept n Eq (Builtin.keyText v) (Builtin.keyText v') := by
  have hwhole := h
  cases h with
  | str | sym => exact .ok rfl
  | int i =>
      rw [Builtin.keyText]
      split
      · exact .ok rfl
      · exact .error (.notKey hwhole)
  | _ => exact .error (.notKey hwhole)

theorem associate_same {key key' list list' : Value} (hkey : ρ.SameValue n key key')
    (h : ρ.SameValue n list list') :
    ρ.SameExcept n (ρ.SameValue n) (Builtin.associate key list)
      (Builtin.associate key' list') := by
  induction h with
  | nil => exact .ok .nil
  | pair hhead _ _ ih =>
      cases hhead with
      | pair hk hv =>
          simp only [Builtin.associate, hk.isEqual_eq hkey]
          split
          · exact .ok (.pair hk hv)
          · exact ih
      | _ => exact ih
  | _ => exact .error .notAssociation

/-- A row with its key. -/
def SameRow (ρ : Correspondence) (n : Nat) (row row' : String × Value) : Prop :=
  row.1 = row'.1 ∧ ρ.SameValue n row.2 row'.2

theorem filter_rows {rows rows' : List (String × Value)}
    (h : List.Forall₂ (ρ.SameRow n) rows rows') (key : String) :
    List.Forall₂ (ρ.SameRow n) (rows.filter (·.1 == key)) (rows'.filter (·.1 == key)) := by
  induction h with
  | nil => exact .nil
  | cons hrow _ ih =>
      rw [List.filter_cons, List.filter_cons, hrow.1]
      split
      · exact .cons hrow ih
      · exact ih

theorem groupRows_same {rows rows' : List (String × Value)}
    (h : List.Forall₂ (ρ.SameRow n) rows rows') :
    ρ.SameValue n (Builtin.groupsValue (Builtin.groupRows rows))
      (Builtin.groupsValue (Builtin.groupRows rows')) := by
  have hkeys : rows.map Prod.fst = rows'.map Prod.fst :=
    List.forall₂_eq_eq_eq ▸ List.rel_map (fun _ _ hrow => hrow.1) h
  have hgroup (key : String) : List.Forall₂ (ρ.SameValue n)
      ((rows.filter (·.1 == key)).map Prod.snd) ((rows'.filter (·.1 == key)).map Prod.snd) :=
    List.rel_map (fun _ _ hrow => hrow.2) (filter_rows h key)
  refine .ofList ?_
  rw [Builtin.groupRows, Builtin.groupRows, ← hkeys, List.map_map, List.map_map,
    List.forall₂_map_left_iff, List.forall₂_map_right_iff, List.forall₂_same]
  exact fun key _ => .pair (.str key) (.ofList (hgroup key))

section

variable {call call' : Value → Value → Eval Value} (h : ρ.SameCall call call') {s s' : State}

include h

theorem keyRows_alike {fn fn' : Value} {rows rows' : List Value}
    (hrows : List.Forall₂ (ρ.SameValue n) rows rows') (hn : n ≤ s.store.codes.size)
    (hstate : ρ.SameState s s') (hfn : ρ.SameValue s.store.codes.size fn fn') :
    ρ.Alike (fun n => List.Forall₂ (ρ.SameRow n)) s (Builtin.keyRows (call fn) rows s)
      (Builtin.keyRows (call' fn') rows' s') := by
  induction hrows generalizing s s' with
  | nil => exact .pure hstate .nil
  | cons hrow _ ih =>
      refine (h hstate hfn (hrow.mono hn)).bind fun hext hstate hv => ?_
      have hn := hn.trans hext.size
      have hfn := hfn.mono hext.size
      have hkey : ρ.Alike (fun _ => Eq) _ _ _ := .ofExcept hstate (keyText_same hv)
      refine hkey.bind fun hext hstate hkey => ?_
      have hn := hn.trans hext.size
      refine (ih hn hstate (hfn.mono hext.size)).bind fun hext hstate hkeyed => ?_
      exact .pure hstate (.cons ⟨hkey, hrow.mono (hn.trans hext.size)⟩ hkeyed)

theorem groupTable_alike (hstate : ρ.SameState s s') {table table' fn fn' : Value}
    (htable : ρ.SameValue s.store.codes.size table table')
    (hfn : ρ.SameValue s.store.codes.size fn fn') :
    ρ.Alike ρ.SameValue s (Builtin.groupTable call table fn s)
      (Builtin.groupTable call' table' fn' s') := by
  rw [Builtin.groupTable_eq, Builtin.groupTable_eq, ← hfn.isProcedure_eq, Value.toList?,
    Value.toList?, ← htable.isProper_eq]
  cases fn.isProcedure with
  | false => exact .throw hstate (.notKeyFunction hfn)
  | true =>
      cases table.isProper with
      | false => exact .throw hstate (.notList .groupBy htable)
      | true =>
          have hkeyed := keyRows_alike h htable.elements (Nat.le_refl _) hstate hfn
          exact hkeyed.bind fun _ hstate hrows => .pure hstate (groupRows_same hrows)

/-- A primitive comes to the same on both sides if its calls do. -/
theorem run_alike (hstate : ρ.SameState s s') (op : Builtin) {args args' : List Value}
    (hargs : List.Forall₂ (ρ.SameValue s.store.codes.size) args args') :
    ρ.Alike ρ.SameValue s (op.run call args s) (op.run call' args' s') := by
  by_cases hlength : args.length = op.arity
  · cases op with
    | cons =>
        obtain ⟨head, tail, rfl⟩ := List.length_eq_two.mp hlength
        obtain _ | ⟨hhead, _ | ⟨htail, _ | _⟩⟩ := hargs
        exact .pure hstate (.pair hhead htail)
    | car =>
        obtain ⟨v, rfl⟩ := List.length_eq_one_iff.mp hlength
        obtain _ | ⟨hv, _ | _⟩ := hargs
        have hwhole := hv
        cases hv with
        | pair hhead _ => exact .pure hstate hhead
        | _ => exact .throw hstate (.notPair .car hwhole)
    | cdr =>
        obtain ⟨v, rfl⟩ := List.length_eq_one_iff.mp hlength
        obtain _ | ⟨hv, _ | _⟩ := hargs
        have hwhole := hv
        cases hv with
        | pair _ htail => exact .pure hstate htail
        | _ => exact .throw hstate (.notPair .cdr hwhole)
    | isNull =>
        obtain ⟨v, rfl⟩ := List.length_eq_one_iff.mp hlength
        obtain _ | ⟨hv, _ | _⟩ := hargs
        cases hv <;> exact .pure hstate (.bool _)
    | equal =>
        obtain ⟨a, b, rfl⟩ := List.length_eq_two.mp hlength
        obtain _ | ⟨ha, _ | ⟨hb, _ | _⟩⟩ := hargs
        simp only [Builtin.run, ha.isEqual_eq hb]
        exact .pure hstate (.bool _)
    | assoc =>
        obtain ⟨key, list, rfl⟩ := List.length_eq_two.mp hlength
        obtain _ | ⟨hkey, _ | ⟨hlist, _ | _⟩⟩ := hargs
        exact .ofExcept hstate (associate_same hkey hlist)
    | groupBy =>
        obtain ⟨table, fn, rfl⟩ := List.length_eq_two.mp hlength
        obtain _ | ⟨htable, _ | ⟨hfn, _ | _⟩⟩ := hargs
        exact groupTable_alike h hstate htable hfn
  · have hlength' : args'.length ≠ op.arity := hargs.length_eq ▸ hlength
    rw [Builtin.run_refused call hlength, Builtin.run_refused call' hlength', hargs.length_eq]
    exact .throw hstate (.arity op.name (.exactly op.arity) args'.length)

end

/-! ## Calls -/

section

variable {eval eval' : Evaluator} (h : ρ.SameEvaluator eval eval') {s s' : State}

include h

theorem applyClosure_alike (hstate : ρ.SameState s s') {id id' : Nat}
    {formals formals' : List String} {args args' : List Value}
    (hfn : ρ.SameValue s.store.codes.size (.closure id formals) (.closure id' formals'))
    (hargs : List.Forall₂ (ρ.SameValue s.store.codes.size) args args') :
    ρ.Alike ρ.SameValue s (applyClosure eval id formals args s)
      (applyClosure eval' id' formals' args' s') := by
  obtain _ | _ | _ | _ | _ | _ | ⟨hlt, hcode, hformals⟩ := hfn
  rw [applyClosure_run, applyClosure_run, ← hargs.length_eq, ← hformals.length_eq]
  by_cases hlength : args.length = formals.length
  · obtain ⟨c, c', hc, hc', hsame⟩ := hstate.store.codes hcode hlt
    rw [if_neg (not_not.mpr hlength), if_neg (not_not.mpr hlength), hc, hc']
    have hsome : Option.Rel (ρ.SameId s.store) (some c.frame) (some c'.frame) :=
      .some ⟨hsame.lt, hsame.frame⟩
    have hstart : ρ.SameState
        { s with store := (s.store.newFrame (formals.zip args) (some c.frame)).2 }
        { s' with store := (s'.store.newFrame (formals'.zip args') (some c'.frame)).2 } :=
      ⟨hstate.store.newFrame hsome fun _ _ => bound_zip hformals hargs, hstate.guard⟩
    have hframe := hstate.store.sameId_newFrame (formals.zip args) (some c.frame)
    simp only [hsame.body]
    exact (evalBody_alike h hsame.covered hstart hframe .nil).of_extends
      (s.store.extends_newFrame _ _)
  · rw [if_pos hlength, if_pos hlength]
    exact .throw hstate (.arity _ _ _)

theorem applyWith_alike {call call' : Value → Value → Eval Value} (hcall : ρ.SameCall call call')
    (hstate : ρ.SameState s s') {fn fn' : Value} {args args' : List Value}
    (hfn : ρ.SameValue s.store.codes.size fn fn')
    (hargs : List.Forall₂ (ρ.SameValue s.store.codes.size) args args') :
    ρ.Alike ρ.SameValue s (applyWith eval call fn args s) (applyWith eval' call' fn' args' s') := by
  have hwhole := hfn
  cases hfn with
  | closure => exact applyClosure_alike h hstate hwhole hargs
  | primitive id op => exact run_alike hcall hstate op hargs
  | _ => exact .throw hstate (.notCallable hwhole)

theorem apply_alike (hstate : ρ.SameState s s') {fn fn' : Value} {args args' : List Value}
    (hfn : ρ.SameValue s.store.codes.size fn fn')
    (hargs : List.Forall₂ (ρ.SameValue s.store.codes.size) args args') (caller caller' : FrameId) :
    ρ.Alike ρ.SameValue s (apply eval fn args caller s) (apply eval' fn' args' caller' s') := by
  have hinner : ρ.SameCall (fun _ v => pure v) (fun _ v => pure v) :=
    fun hstate _ harg => .pure hstate harg
  refine applyWith_alike h (fun hstate hfn harg => ?_) hstate hfn hargs
  exact applyWith_alike h hinner hstate hfn (.cons harg .nil)

end

/-! ## Special forms -/

theorem parameterNames_same : ∀ {items : List Form} {seen seen' : List String},
    (∀ item ∈ items, ρ.Covers item) → List.Forall₂ ρ.Name seen seen' →
    ρ.SameExcept n (List.Forall₂ ρ.Name) (parameterNames seen items)
      (parameterNames seen' (items.map (Form.rename ρ.apply)))
  | [], _, _, _, hseen => .ok (List.rel_reverse hseen)
  | item :: rest, seen, seen', hitems, hseen => by
      obtain ⟨hitem, hrest⟩ := List.forall_mem_cons.mp hitems
      rw [List.map_cons]
      cases item with
      | sym name =>
          have hname := hitem.sym
          have hmem : name ∈ seen ↔ ρ.apply name ∈ seen' :=
            List.rel_mem Renaming.name_biUnique hname hseen
          simp only [Form.rename, parameterNames, List.contains_iff_mem, ← hmem]
          split
          · exact .error (.duplicateParameter hname)
          · exact parameterNames_same hrest (.cons hname hseen)
      | list items =>
          cases items with
          | nil => exact .error .parameterName
          | cons head operands =>
              rw [Form.rename_cons]
              exact .error .parameterName
      | _ => exact .error .parameterName

theorem parameters_same {params : Form} (h : ρ.Covers params) :
    ρ.SameExcept n (List.Forall₂ ρ.Name) (parameters params)
      (parameters (params.renameParameters ρ.apply)) := by
  cases params with
  | list items =>
      rw [Form.renameParameters, Form.renameAll_eq_map]
      exact parameterNames_same h.list .nil
  | const v =>
      cases v with
      | nil => exact .ok .nil
      | _ => exact .error .parameterList
  | _ => exact .error .parameterList

theorem lookup_alike {s s' : State} (hstate : ρ.SameState s s') {frame frame' : FrameId}
    (hframe : ρ.SameId s.store frame frame') {a a' : String} (ha : ρ.Name a a') :
    ρ.Alike ρ.SameValue s (Eval.lookup frame a s) (Eval.lookup frame' a' s') := by
  have hv := hstate.store.lookup? hframe ha
  simp only [Eval.lookup_eq, Eval.withStore]
  generalize s.store.lookup? frame a = x at hv
  generalize s'.store.lookup? frame' a' = x' at hv
  cases hv with
  | none => exact .throw hstate (.unbound ha)
  | some hv => exact .pure hstate hv

theorem define_alike {s s' : State} (hstate : ρ.SameState s s') {frame frame' : FrameId}
    (hframe : ρ.SameId s.store frame frame') {a a' : String} (ha : ρ.Name a a') {v v' : Value}
    (hv : ρ.SameValue s.store.codes.size v v') :
    ρ.Alike (fun _ => Eq) s (Eval.define frame a v s) (Eval.define frame' a' v' s') :=
  .ok rfl ⟨hstate.store.define hframe ha hv, hstate.guard⟩ (s.store.extends_define frame a v)

theorem newClosure_alike {s s' : State} (hstate : ρ.SameState s s')
    {formals formals' : List String} (hformals : List.Forall₂ ρ.Name formals formals')
    {c c' : Code} (hc : ρ.SameCode s.store.frames.size c c') :
    ρ.Alike ρ.SameValue s (Eval.onStore (·.newClosure formals c) s)
      (Eval.onStore (·.newClosure formals' c') s') := by
  obtain ⟨hstore, hv⟩ := hstate.store.newClosure hformals hc
  exact .ok hv ⟨hstore, hstate.guard⟩ (s.store.extends_newClosure formals c)

theorem evalLambda_alike {eval eval' : Evaluator} {s s' : State} (hstate : ρ.SameState s s')
    {frame frame' : FrameId} (hframe : ρ.SameId s.store frame frame') {params first : Form}
    {rest : List Form} (hparams : ρ.Covers params) (hbody : ∀ form ∈ first :: rest, ρ.Covers form) :
    ρ.Alike ρ.SameValue s (evalSpecial eval frame .lambda (params :: first :: rest) s)
      (evalSpecial eval' frame' .lambda
        (params.renameParameters ρ.apply :: (first :: rest).map (Form.rename ρ.apply)) s') := by
  have hformals : ρ.Alike (fun _ => List.Forall₂ ρ.Name) s _ _ :=
    .ofExcept hstate (parameters_same hparams)
  refine hformals.bind fun hext hstate hformals => ?_
  have hframe := hframe.mono hext
  exact newClosure_alike hstate hformals ⟨hframe.lt, hframe.frame, hbody, rfl⟩

section

variable {eval eval' : Evaluator} (h : ρ.SameEvaluator eval eval') {s s' : State}
  (hstate : ρ.SameState s s') {frame frame' : FrameId} (hframe : ρ.SameId s.store frame frame')

include h hstate hframe

theorem evalDefine_alike {target form : Form} (htarget : ρ.Covers target)
    (hform : ρ.Covers form) :
    ρ.Alike ρ.SameValue s (evalSpecial eval frame .define [target, form] s)
      (evalSpecial eval' frame' .define [target.rename ρ.apply, form.rename ρ.apply] s') := by
  cases target with
  | sym name =>
      refine (h hform hstate hframe).bind fun hext hstate hv => ?_
      refine (define_alike hstate (hframe.mono hext) htarget.sym hv).bind ?_
      exact fun hext hstate _ => .pure hstate (hv.mono hext.size)
  | list items =>
      cases items with
      | nil => exact .throw hstate .definitionTarget
      | cons head operands =>
          rw [Form.rename_cons]
          exact .throw hstate .definitionTarget
  | _ => exact .throw hstate .definitionTarget

theorem evalConditional_alike {test yes no : Form} (htest : ρ.Covers test) (hyes : ρ.Covers yes)
    (hno : ρ.Covers no) :
    ρ.Alike ρ.SameValue s (evalSpecial eval frame .conditional [test, yes, no] s)
      (evalSpecial eval' frame' .conditional
        [test.rename ρ.apply, yes.rename ρ.apply, no.rename ρ.apply] s') := by
  refine (h htest hstate hframe).bind fun hext hstate hv => ?_
  rw [hv.isTruthy_eq]
  split
  · exact h hyes hstate (hframe.mono hext)
  · exact h hno hstate (hframe.mono hext)

theorem evalSpecial_alike (special : SpecialForm) {operands : List Form}
    (hoperands : ∀ operand ∈ operands, ρ.Covers operand) :
    ρ.Alike ρ.SameValue s (evalSpecial eval frame special operands s)
      (evalSpecial eval' frame' special
        (Form.renameOperands ρ.apply (some special) operands) s') := by
  have hlength := Form.length_renameOperands ρ.apply (some special) operands
  by_cases hallowed : special.arity.Allows operands.length
  · cases special with
    | quote =>
        obtain ⟨datum, rfl⟩ := List.length_eq_one_iff.mp hallowed
        have hdatum := hoperands datum (List.mem_singleton_self datum)
        exact .pure hstate (.of_closures_eq_nil hdatum.readable.closures_toValue)
    | define =>
        obtain ⟨target, form, rfl⟩ := List.length_eq_two.mp hallowed
        obtain ⟨htarget, hform⟩ : ρ.Covers target ∧ ρ.Covers form := by simpa using hoperands
        exact evalDefine_alike h hstate hframe htarget hform
    | lambda =>
        obtain ⟨params, first, rest, rfl⟩ : ∃ params first rest,
            operands = params :: first :: rest := by
          match operands, hallowed with
          | params :: first :: rest, _ => exact ⟨params, first, rest, rfl⟩
        obtain ⟨hparams, hbody⟩ := List.forall_mem_cons.mp hoperands
        rw [Form.renameOperands, Form.renameLambda, Form.renameAll_eq_map]
        exact evalLambda_alike hstate hframe hparams hbody
    | conditional =>
        obtain ⟨test, yes, no, rfl⟩ := List.length_eq_three.mp hallowed
        obtain ⟨htest, hyes, hno⟩ : ρ.Covers test ∧ ρ.Covers yes ∧ ρ.Covers no := by
          simpa using hoperands
        exact evalConditional_alike h hstate hframe htest hyes hno
  · rw [evalSpecial_refused hallowed, evalSpecial_refused (hlength.symm ▸ hallowed), hlength]
    exact .throw hstate (.arity special.name special.arity operands.length)

/-! ## Forms -/

theorem evalParts_alike {form : Form} (hform : ρ.Covers form) :
    ρ.Alike ρ.SameValue s (evalParts eval form frame s)
      (evalParts eval' (form.rename ρ.apply) frame' s') := by
  cases form with
  | const v => exact .pure hstate (.of_closures_eq_nil hform.readable.closures_toValue)
  | sym name => exact lookup_alike hstate hframe hform.sym
  | dotted items tail => exact .throw hstate .dottedCall
  | list items =>
      cases items with
      | nil => exact .pure hstate .nil
      | cons head operands =>
          obtain ⟨hhead, hoperands⟩ := List.forall_mem_cons.mp hform.list
          rw [Form.rename_cons]
          simp only [evalParts, hhead.specialHead?]
          cases hspecial : specialHead? head with
          | some special => exact evalSpecial_alike h hstate hframe special hoperands
          | none =>
              refine (h hhead hstate hframe).bind fun hext hstate hfn => ?_
              have hframe := hframe.mono hext
              refine (evalAll_alike h hoperands hstate hframe).bind fun hext hstate hargs => ?_
              exact apply_alike h hstate (hfn.mono hext.size) hargs frame frame'

end

theorem evalWith_same : ∀ room : Nat, ρ.SameEvaluator (evalWith room) (evalWith room)
  | 0, _, _, _, _, _, _, hstate, _ =>
      .nested hstate fun guard => .pure (hstate.withGuard guard) SameValue.nil
  | room + 1, _, _, _, _, _, hform, hstate, hframe =>
      .nested hstate fun guard =>
        evalParts_alike (evalWith_same room) (hstate.withGuard guard) hframe hform

/-- On states that are the same a form and its renaming evaluate to the same. -/
theorem evaluate_same : ρ.SameEvaluator evaluate evaluate := by
  intro form frame frame' s s' hform hstate hframe
  simp only [evaluate, hstate.guard]
  exact evalWith_same s.guard.room hform hstate hframe

/-- On states that are the same, calls of the same value come to the same, whoever calls. -/
theorem applyValue_alike {s s' : State} (hstate : ρ.SameState s s') {fn fn' : Value}
    {args args' : List Value} (hfn : ρ.SameValue s.store.codes.size fn fn')
    (hargs : List.Forall₂ (ρ.SameValue s.store.codes.size) args args')
    (caller caller' : FrameId) :
    ρ.Alike ρ.SameValue s (applyValue fn args caller s) (applyValue fn' args' caller' s') := by
  simp only [applyValue, hstate.guard]
  exact apply_alike (evalWith_same s.guard.room) hstate hfn hargs caller caller'

end Correspondence

end TableLisp

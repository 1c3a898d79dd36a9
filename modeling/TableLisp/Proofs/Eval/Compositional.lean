import TableLisp.Eval.Evaluator

/-!
# What the evaluator is made of

Special forms, calls and primitives are stated over a way of evaluating and a way of calling. If two
of these are related, and sequences inherit the relation from their parts (`Eval.Compositional`),
then the loops of the evaluator and the primitives are related as well, whatever the relation says.
A property of single evaluations is such a relation, one that asks nothing of the second evaluation.

If moreover the relation holds of what the evaluator does to the store itself (`Eval.Stepwise`),
then it passes on from the evaluation of the parts of a form to that of the form. So it is with
every relation that says nothing about the store (`Eval.StoreBlind`).

The other lemmas lay open what a part of the evaluator comes to, so that no proof has to unfold it:
`applyClosure_run` and `apply_closure` for a call of a closure, `apply_eq` for a call of any value,
and `evalSpecial_shapes` for a special form.
-/

namespace TableLisp

/-! ## Calls and special forms -/

namespace Eval

/-- Goes on in a way that the store decides. -/
def withStore (f : Store → Eval α) : Eval α :=
  fun s => f s.store s

theorem lookup_eq (frame : FrameId) (name : String) :
    lookup frame name = withStore fun store =>
      match store.lookup? frame name with
      | some v => pure v
      | none => throw (.unbound name) := rfl

end Eval

/-- A call of a closure makes a frame for the body to run in. -/
theorem applyClosure_eq (eval : Evaluator) (id : Nat) (formals : List String)
    (args : List Value) :
    applyClosure eval id formals args =
      if args.length ≠ formals.length then
        throw (.arity "lambda" (.exactly formals.length) args.length)
      else
        Eval.withStore fun store =>
          match store.codes[id]? with
          | none => pure .nil
          | some code =>
            Eval.onStore (·.newFrame (formals.zip args) (some code.frame)) >>= fun frame =>
              evalBody eval frame .nil code.body := by
  have hget (f : State → Eval Value) : (get >>= f) = fun s => f s s := rfl
  unfold applyClosure
  split
  · rfl
  · rw [hget]
    funext s
    cases hcode : s.store.codes[id]? <;> simp only [Eval.withStore, hcode]

/-- What a call of a closure comes to: the body runs in the frame made for it. -/
theorem applyClosure_run (eval : Evaluator) (id : Nat) (formals : List String)
    (args : List Value) (s : State) :
    applyClosure eval id formals args s =
      if args.length ≠ formals.length then
        .error (.arity "lambda" (.exactly formals.length) args.length) s
      else
        match s.store.codes[id]? with
        | none => .ok .nil s
        | some code =>
          evalBody eval s.store.frames.size .nil code.body
            { s with store := (s.store.newFrame (formals.zip args) (some code.frame)).2 } := by
  rw [applyClosure_eq]
  split
  · rfl
  · simp only [Eval.withStore]
    cases s.store.codes[id]? <;> rfl

/-- A call of a closure that is there, with as many arguments as it takes. -/
theorem apply_closure (eval : Evaluator) {id : Nat} {formals : List String} {args : List Value}
    {code : Code} {s : State} (hcode : s.store.codes[id]? = some code)
    (hargs : args.length = formals.length) (caller : FrameId) :
    apply eval (.closure id formals) args caller s =
      evalBody eval s.store.frames.size .nil code.body
        { s with store := (s.store.newFrame (formals.zip args) (some code.frame)).2 } := by
  rw [apply, applyWith, applyClosure_run, if_neg (absurd hargs)]
  simp only [hcode]

namespace Builtin

/-- A grouping looks at its arguments first and then finds the keys row by row. -/
theorem groupTable_eq (call : Value → Value → Eval Value) (table keyFunction : Value) :
    groupTable call table keyFunction =
      if !keyFunction.isProcedure then throw (.notKeyFunction keyFunction)
      else
        match table.toList? with
        | none => throw (.notList .groupBy table)
        | some rows => keyRows (call keyFunction) rows >>= fun keyed =>
            pure (groupsValue (groupRows keyed)) := by
  unfold groupTable
  cases keyFunction.isProcedure <;> cases table.toList? <;> rfl

/-- With one argument no primitive calls anything. -/
theorem run_single (call call' : Value → Value → Eval Value) (op : Builtin) (v : Value) :
    op.run call [v] = op.run call' [v] := by
  cases op with
  | car | cdr => cases v <;> rfl
  | _ => rfl

end Builtin

/-- A primitive calls back the way it was called itself. -/
theorem apply_eq (eval : Evaluator) (fn : Value) (args : List Value) (caller : FrameId) :
    apply eval fn args caller =
      applyWith eval (fun fn arg => apply eval fn [arg] caller) fn args := by
  have hcall : (fun fn arg => applyWith eval (fun _ v => pure v) fn [arg]) =
      fun fn arg => apply eval fn [arg] caller := by
    funext fn arg
    cases fn with
    | primitive id op => exact Builtin.run_single ..
    | _ => rfl
  rw [apply, hcall]

/-- A special form has operands of its shape, or it is refused whatever way these would be
evaluated. -/
theorem evalSpecial_shapes (form : SpecialForm) (operands : List Form) :
    (∃ datum, form = .quote ∧ operands = [datum]) ∨
      (∃ name value, form = .define ∧ operands = [.sym name, value]) ∨
      (∃ params first rest, form = .lambda ∧ operands = params :: first :: rest) ∨
      (∃ test yes no, form = .conditional ∧ operands = [test, yes, no]) ∨
      (∃ e, e.culprit? = none ∧ ∀ eval frame, evalSpecial eval frame form operands = throw e) := by
  fun_cases evalSpecial (fun _ _ => pure .nil) 0 form operands with
  | case1 datum => exact Or.inl ⟨datum, rfl, rfl⟩
  | case2 value name => exact Or.inr (Or.inl ⟨name, value, rfl, rfl⟩)
  | case4 params first rest => exact Or.inr (Or.inr (Or.inl ⟨params, first, rest, rfl, rfl⟩))
  | case5 test yes no => exact Or.inr (Or.inr (Or.inr (Or.inl ⟨test, yes, no, rfl, rfl⟩)))
  | _ =>
      refine Or.inr (Or.inr (Or.inr (Or.inr ?_)))
      apply Exists.intro
      refine And.symm ⟨fun eval frame => ?_, ?_⟩
      · simp only [evalSpecial]
        rfl
      · rfl

/-! ## Relations that sequences inherit -/

/-- A relation between evaluations that a sequence inherits from its parts. -/
structure Eval.Compositional (Q : ∀ {α : Type}, Eval α → Eval α → Prop) : Prop where
  pure {α : Type} (a : α) : Q (pure a : Eval α) (pure a)
  throw {α : Type} (e : EvalError) : Q (throw e : Eval α) (throw e)
  bind {α β : Type} {x x' : Eval α} {f f' : α → Eval β} (hx : Q x x')
    (hf : ∀ a, Q (f a) (f' a)) : Q (x >>= f) (x' >>= f')

namespace Eval.Compositional

variable {Q : ∀ {α : Type}, Eval α → Eval α → Prop} (hQ : Compositional Q)

include hQ

theorem ofExcept (r : Except EvalError α) : Q (ofExcept r) (ofExcept r) := by
  cases r with
  | ok a => exact hQ.pure a
  | error e => exact hQ.throw e

theorem evalAll (eval eval' : Evaluator) (frame : FrameId) :
    ∀ forms : List Form, (∀ form ∈ forms, Q (eval form frame) (eval' form frame)) →
      Q (evalAll eval frame forms) (evalAll eval' frame forms)
  | [], _ => hQ.pure _
  | form :: rest, h => by
      obtain ⟨hform, hrest⟩ := List.forall_mem_cons.mp h
      refine hQ.bind hform fun _ => ?_
      exact hQ.bind (evalAll eval eval' frame rest hrest) fun _ => hQ.pure _

theorem evalBody (eval eval' : Evaluator) (frame : FrameId) :
    ∀ (last : Value) (forms : List Form),
      (∀ form ∈ forms, Q (eval form frame) (eval' form frame)) →
      Q (evalBody eval frame last forms) (evalBody eval' frame last forms)
  | _, [], _ => hQ.pure _
  | _, form :: rest, h => by
      obtain ⟨hform, hrest⟩ := List.forall_mem_cons.mp h
      exact hQ.bind hform fun v => evalBody eval eval' frame v rest hrest

theorem keyRows (call call' : Value → Eval Value) (h : ∀ row, Q (call row) (call' row)) :
    ∀ rows : List Value, Q (Builtin.keyRows call rows) (Builtin.keyRows call' rows)
  | [] => hQ.pure _
  | row :: rest =>
      hQ.bind (h row) fun v => hQ.bind (hQ.ofExcept (Builtin.keyText v)) fun _ =>
        hQ.bind (keyRows call call' h rest) fun _ => hQ.pure _

variable (call call' : Value → Value → Eval Value) (h : ∀ fn arg, Q (call fn arg) (call' fn arg))

include h

theorem groupTable (table keyFunction : Value) :
    Q (Builtin.groupTable call table keyFunction) (Builtin.groupTable call' table keyFunction) := by
  rw [Builtin.groupTable_eq, Builtin.groupTable_eq]
  cases keyFunction.isProcedure with
  | false => exact hQ.throw _
  | true =>
      cases table.toList? with
      | none => exact hQ.throw _
      | some rows =>
          have hkeyed := hQ.keyRows (call keyFunction) (call' keyFunction) (h keyFunction) rows
          exact hQ.bind hkeyed fun _ => hQ.pure _

/-- A primitive does nothing but what its calls do. -/
theorem run (op : Builtin) (args : List Value) : Q (op.run call args) (op.run call' args) := by
  fun_cases Builtin.run call op args with
  | case8 key list => exact hQ.ofExcept _
  | case9 table keyFunction => exact hQ.groupTable call call' h table keyFunction
  | case3 | case5 | case10 =>
      simp only [Builtin.run]
      exact hQ.throw _
  | _ => exact hQ.pure _

end Eval.Compositional

/-! ## Relations that hold of every step -/

/-- A relation that sequences inherit, that holds of each change that the evaluator makes to the
store, and that holds of two evaluations which look at the store if it holds of what they do with
any one store. -/
structure Eval.Stepwise (Q : ∀ {α : Type}, Eval α → Eval α → Prop) : Prop
    extends Compositional Q where
  newFrame (bindings : List (String × Value)) (outer : Option FrameId) :
    Q (onStore (·.newFrame bindings outer)) (onStore (·.newFrame bindings outer))
  newClosure (formals : List String) (code : Code) :
    Q (onStore (·.newClosure formals code)) (onStore (·.newClosure formals code))
  define (frame : FrameId) (name : String) (v : Value) :
    Q (Eval.define frame name v) (Eval.define frame name v)
  withStore {α : Type} {f f' : Store → Eval α} (h : ∀ store, Q (f store) (f' store)) :
    Q (Eval.withStore f) (Eval.withStore f')

namespace Eval.Stepwise

variable {Q : ∀ {α : Type}, Eval α → Eval α → Prop} (hQ : Stepwise Q)

include hQ

theorem lookup (frame : FrameId) (name : String) :
    Q (lookup frame name) (lookup frame name) := by
  rw [lookup_eq]
  refine hQ.withStore fun store => ?_
  cases store.lookup? frame name with
  | none => exact hQ.throw _
  | some v => exact hQ.pure v

variable {eval eval' : Evaluator} (h : ∀ form frame, Q (eval form frame) (eval' form frame))

include h

theorem applyClosure (id : Nat) (formals : List String) (args : List Value) :
    Q (applyClosure eval id formals args) (applyClosure eval' id formals args) := by
  rw [applyClosure_eq, applyClosure_eq]
  split
  · exact hQ.throw _
  · refine hQ.withStore fun store => ?_
    cases store.codes[id]? with
    | none => exact hQ.pure _
    | some code =>
        refine hQ.bind (hQ.newFrame _ _) fun frame => ?_
        exact hQ.evalBody eval eval' frame .nil code.body fun form _ => h form frame

theorem applyWith {call call' : Value → Value → Eval Value}
    (hcall : ∀ fn arg, Q (call fn arg) (call' fn arg)) (fn : Value) (args : List Value) :
    Q (applyWith eval call fn args) (applyWith eval' call' fn args) := by
  cases fn with
  | closure id formals => exact hQ.applyClosure h id formals args
  | primitive id op => exact hQ.run call call' hcall op args
  | _ => exact hQ.throw _

theorem apply (fn : Value) (args : List Value) (caller : FrameId) :
    Q (apply eval fn args caller) (apply eval' fn args caller) :=
  hQ.applyWith h (fun fn arg => hQ.applyWith h (fun _ _ => hQ.pure _) fn [arg]) fn args

theorem evalSpecial (frame : FrameId) (form : SpecialForm) (operands : List Form) :
    Q (evalSpecial eval frame form operands) (evalSpecial eval' frame form operands) := by
  obtain ⟨datum, rfl, rfl⟩ | ⟨name, value, rfl, rfl⟩ | ⟨params, first, rest, rfl, rfl⟩ |
    ⟨test, yes, no, rfl, rfl⟩ | ⟨e, -, hrefused⟩ := evalSpecial_shapes form operands
  · exact hQ.pure _
  · refine hQ.bind (h value frame) fun v => ?_
    exact hQ.bind (hQ.define frame name v) fun _ => hQ.pure v
  · refine hQ.bind (hQ.ofExcept (parameters params)) fun formals => ?_
    exact hQ.newClosure formals ⟨first :: rest, frame⟩
  · refine hQ.bind (h test frame) fun v => ?_
    split
    · exact h yes frame
    · exact h no frame
  · rw [hrefused, hrefused]
    exact hQ.throw e

/-- What is made of the parts of a form does nothing but what their evaluations do. -/
theorem evalParts (form : Form) (frame : FrameId) :
    Q (evalParts eval form frame) (evalParts eval' form frame) := by
  fun_cases TableLisp.evalParts eval form frame with
  | case1 v => exact hQ.pure v
  | case2 name => exact hQ.lookup frame name
  | case3 => exact hQ.throw _
  | case4 => exact hQ.pure _
  | case5 head operands form hhead =>
      simp only [TableLisp.evalParts, hhead]
      exact hQ.evalSpecial h frame form operands
  | case6 head operands hhead =>
      simp only [TableLisp.evalParts, hhead]
      refine hQ.bind (h head frame) fun fn => ?_
      have hargs := hQ.evalAll eval eval' frame operands fun form _ => h form frame
      exact hQ.bind hargs fun args => hQ.apply h fn args frame

end Eval.Stepwise

/-! ## Relations that leave the store aside -/

/-- A relation that sequences inherit and that says nothing about the store. -/
structure Eval.StoreBlind (Q : ∀ {α : Type}, Eval α → Eval α → Prop) : Prop
    extends Compositional Q where
  onStore {α : Type} (f : Store → α × Store) : Q (Eval.onStore f) (Eval.onStore f)
  withStore {α : Type} {f f' : Store → Eval α} (h : ∀ store, Q (f store) (f' store)) :
    Q (Eval.withStore f) (Eval.withStore f')

theorem Eval.StoreBlind.stepwise {Q : ∀ {α : Type}, Eval α → Eval α → Prop}
    (hQ : StoreBlind Q) : Stepwise Q :=
  { hQ with
    newFrame := fun _ _ => hQ.onStore _
    newClosure := fun _ _ => hQ.onStore _
    define := fun _ _ _ => hQ.onStore _ }

end TableLisp

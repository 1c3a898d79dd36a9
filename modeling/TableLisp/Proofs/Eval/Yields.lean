import TableLisp.Proofs.Eval.Depth
import TableLisp.Session

/-!
# Evaluations that succeed

`Eval.Yields n x s a t` says that `x` succeeds with `a` and turns the store `s` into `t` wherever
the guard has room for `n` levels of nesting. It is a triple for total correctness: the result is
there, and the guard is the same again. Its rules follow the evaluator, one for each kind of form
and of call, so that a program is run by applying them along its text. Only a form costs a level;
what is done in sequence shares them.
-/

namespace TableLisp

namespace Eval

/-- With room for `levels` levels of nesting, `x` yields `a` and makes `t` of the store `s`. -/
def Yields (levels : Nat) (x : Eval α) (s : Store) (a : α) (t : Store) : Prop :=
  ∀ g : Guard, levels ≤ g.room → x ⟨s, g⟩ = .ok a ⟨t, g⟩

namespace Yields

variable {n m : Nat} {s t u w : Store}

theorem mono {x : Eval α} {a : α} (h : Yields n x s a t) (hle : n ≤ m) : Yields m x s a t :=
  fun g hroom => h g (Nat.le_trans hle hroom)

theorem pure (a : α) (s : Store) : Yields n (pure a : Eval α) s a s :=
  fun _ _ => rfl

theorem onStore (f : Store → α × Store) (s : Store) :
    Yields n (onStore f) s (f s).1 (f s).2 :=
  fun _ _ => rfl

theorem bind {x : Eval α} {f : α → Eval β} {a : α} {b : β} (hx : Yields n x s a t)
    (hf : Yields n (f a) t b u) : Yields n (x >>= f) s b u := by
  intro g hroom
  simp only [Bind.bind, EStateM.bind, hx g hroom]
  exact hf g hroom

theorem nested {x : Eval α} {a : α} (h : Yields n x s a t) :
    Yields (n + 1) (nested x) s a t := by
  intro g hroom
  cases henter : g.enter? with
  | none =>
      have hzero : g.room = 0 := Guard.enter?_eq_none_iff.mp henter
      omega
  | some inner =>
      have hinner : n ≤ inner.room := by
        have := Guard.room_of_enter? henter
        omega
      simp only [Eval.nested, henter, h inner hinner, Guard.leave_of_enter? henter]

/-! ## Forms -/

variable {frame : FrameId} {v : Value}

theorem form {form : Form} (h : Yields n (evalParts evaluate form frame) s v t) :
    Yields (n + 1) (evaluate form frame) s v t := by
  rw [evaluate_eq]
  exact h.nested

theorem sym {name : String} (h : s.lookup? frame name = some v) :
    Yields 1 (evaluate (.sym name) frame) s v s := by
  refine form fun g _ => ?_
  simp only [evalParts, lookup_eq, withStore, h]
  rfl

theorem quoted (datum : Form) (frame : FrameId) (s : Store) :
    Yields 1 (evaluate (.quoted datum) frame) s datum.toValue s :=
  form fun _ _ => rfl

theorem lambda {params first : Form} {rest : List Form} {formals : List String}
    (hparams : parameters params = .ok formals) (frame : FrameId) (s : Store) :
    Yields 1 (evaluate (.list (.sym SpecialForm.lambda.name :: params :: first :: rest)) frame) s
      (s.newClosure formals ⟨first :: rest, frame⟩).1
      (s.newClosure formals ⟨first :: rest, frame⟩).2 := by
  have hlambda : specialHead? (.sym SpecialForm.lambda.name) = some .lambda :=
    SpecialForm.ofName?_name .lambda
  refine form ?_
  simp only [evalParts, hlambda, evalSpecial, hparams]
  exact (pure formals s).bind (onStore _ s)

theorem define {name : String} {form : Form} (h : Yields n (evaluate form frame) s v t) :
    Yields (n + 1)
      (evaluate (.list [.sym SpecialForm.define.name, .sym name, form]) frame) s v
      (t.define frame name v) := by
  have hdefine : specialHead? (.sym SpecialForm.define.name) = some .define :=
    SpecialForm.ofName?_name .define
  refine Yields.form ?_
  simp only [evalParts, hdefine, evalSpecial]
  exact h.bind ((onStore _ t).bind (pure v _))

theorem operands_nil (s : Store) : Yields n (evalAll evaluate frame []) s [] s :=
  pure [] s

theorem operands_cons {operand : Form} {rest : List Form} {vs : List Value}
    (hfirst : Yields n (evaluate operand frame) s v t)
    (hrest : Yields n (evalAll evaluate frame rest) t vs u) :
    Yields n (evalAll evaluate frame (operand :: rest)) s (v :: vs) u :=
  hfirst.bind (hrest.bind (pure (v :: vs) u))

/-- A list is a call unless its head names a special form. -/
theorem call {head : Form} {operands : List Form} {fn : Value} {args : List Value}
    (hhead : specialHead? head = none) (hfn : Yields n (evaluate head frame) s fn t)
    (hargs : Yields n (evalAll evaluate frame operands) t args u)
    (hcall : Yields n (applyValue fn args frame) u v w) :
    Yields (n + 1) (evaluate (.list (head :: operands)) frame) s v w := by
  refine form ?_
  simp only [evalParts, hhead]
  rw [applyValue_eq_apply] at hcall
  exact hfn.bind (hargs.bind hcall)

theorem body {form : Form} {last : Value} (h : Yields n (evaluate form frame) s v t) :
    Yields n (evalBody evaluate frame last [form]) s v t :=
  h.bind (pure v t)

/-! ## Calls -/

variable {id : Nat} {args : List Value} {caller : FrameId}

theorem closure {formals : List String} {code : Code} (hcode : s.codes[id]? = some code)
    (hargs : args.length = formals.length)
    (hbody : Yields n (evalBody evaluate s.frames.size .nil code.body)
      (s.newFrame (formals.zip args) (some code.frame)).2 v t) :
    Yields n (applyValue (.closure id formals) args caller) s v t := by
  intro g hroom
  rw [applyValue_eq_apply, apply_closure evaluate hcode hargs]
  exact hbody g hroom

/-- A primitive that needs no call does the same wherever it is called. -/
theorem primitive {op : Builtin} (h : ∀ call, op.run call args = Pure.pure v) (s : Store) :
    Yields n (applyValue (.primitive id op) args caller) s v s := by
  intro g _
  rw [applyValue_eq, applyWith, h]
  rfl

end Yields

end Eval

/-! ## Programs of one form -/

namespace Session

theorem evalForms_of_yields {session : Session} {form : Form} {n : Nat} {v : Value}
    {store : Store}
    (h : Eval.Yields n (evaluate form session.global) session.state.store v store)
    (hroom : n ≤ session.state.guard.room) :
    session.evalForms [form] =
      (.ok v, { session with state := { session.state with store } }) := by
  obtain ⟨⟨s, g⟩, global⟩ := session
  have hbody : evalBody evaluate global .nil [form] ⟨s, g⟩ = .ok v ⟨store, g⟩ := h.body g hroom
  simp only [evalForms, hbody]

theorem run_of_yields {session : Session} {code : String} {form : Form} {n : Nat}
    {v : Value} {store : Store}
    (hparse : parse session.state.guard.limit code.toList = .ok [form])
    (h : Eval.Yields n (evaluate form session.global) session.state.store v store)
    (hroom : n ≤ session.state.guard.room) :
    session.run code = (.ok v, { session with state := { session.state with store } }) := by
  simp only [run, hparse, evalForms_of_yields h hroom]
  rfl

end Session

end TableLisp

import TableLisp.Proofs.Eval.Frames
import TableLisp.Proofs.Eval.Yields

/-!
# The levels that an evaluation takes

`Eval.Takes n x s a t` says that `n` levels of nesting are what `x` needs on the store `s`: with
room for so many it yields `a` and leaves the store `t`, and with less room it is refused for its
depth. Either way the guard is the same again and no frame that was there has changed.

Again there is one rule for each kind of form and of call (compare `Eval.Yields`). Parts that are
evaluated one after the other share their levels, so a sequence takes as many as the part that takes
most; a form takes one more than its parts, and a call no more than what it runs.
-/

namespace TableLisp

namespace Eval

/-- `x` yields `a` and makes `t` of the store `s` if there is room for `levels` levels of nesting,
and is refused for its depth if there is not. It changes no frame. -/
structure Takes (levels : Nat) (x : Eval α) (s : Store) (a : α) (t : Store) : Prop where
  yields : Yields levels x s a t
  refused : ∀ g : Guard, g.room < levels →
    ∃ u, x ⟨s, g⟩ = .error (.tooDeep g.limit) ⟨u, g⟩ ∧ s.Keeps u
  keeps : s.Keeps t

namespace Takes

variable {n m k : Nat} {s t u w : Store}

theorem of_eq {x : Eval α} {a : α} (h : Takes n x s a t) (heq : n = m) : Takes m x s a t :=
  heq ▸ h

/-- What evaluates nothing takes no level. -/
theorem of_run {x : Eval α} {a : α} (h : ∀ g, x ⟨s, g⟩ = .ok a ⟨t, g⟩) (hkeeps : s.Keeps t) :
    Takes 0 x s a t where
  yields g _ := h g
  refused g hroom := absurd hroom (Nat.not_lt_zero g.room)
  keeps := hkeeps

theorem pure (a : α) (s : Store) : Takes 0 (pure a : Eval α) s a s :=
  of_run (fun _ => rfl) (.refl s)

theorem bind {x : Eval α} {f : α → Eval β} {a : α} {b : β} (hx : Takes n x s a t)
    (hf : Takes m (f a) t b u) : Takes (max n m) (x >>= f) s b u where
  yields := (hx.yields.mono (Nat.le_max_left n m)).bind (hf.yields.mono (Nat.le_max_right n m))
  refused g hroom := by
    simp only [Bind.bind, EStateM.bind]
    by_cases hfirst : g.room < n
    · obtain ⟨v, hrefused, hkeeps⟩ := hx.refused g hfirst
      exact ⟨v, by rw [hrefused], hkeeps⟩
    · have hsecond : g.room < m := by omega
      obtain ⟨v, hrefused, hkeeps⟩ := hf.refused g hsecond
      rw [hx.yields g (Nat.le_of_not_lt hfirst)]
      exact ⟨v, hrefused, hx.keeps.trans hkeeps⟩
  keeps := hx.keeps.trans hf.keeps

/-- One more level: it is refused itself, or leaves one level less to what is inside. -/
theorem nested {x : Eval α} {a : α} (h : Takes n x s a t) : Takes (n + 1) (nested x) s a t where
  yields := h.yields.nested
  refused g hroom := by
    simp only [Eval.nested]
    cases henter : g.enter? with
    | none => exact ⟨s, rfl, .refl s⟩
    | some inner =>
        have hinner : inner.room < n := by
          have := Guard.room_of_enter? henter
          omega
        obtain ⟨v, hrefused, hkeeps⟩ := h.refused inner hinner
        have hlimit : inner.limit = g.limit := (Guard.depth_le_of_enter? henter).2
        exact ⟨v, by simp only [hrefused, hlimit, Guard.leave_of_enter? henter], hkeeps⟩
  keeps := h.keeps

/-! ## Forms -/

variable {frame : FrameId} {v c : Value}

/-- A form takes at least the level that it is itself. -/
theorem pos {form : Form} (h : Takes n (evaluate form frame) s v t) : 0 < n := by
  refine Nat.pos_of_ne_zero fun hzero => ?_
  have hyields := h.yields (.ofLimit 0) (hzero ▸ Nat.zero_le _)
  rw [evaluate_of_limit_le (Int.le_refl _)] at hyields
  cases hyields

theorem form {form : Form} (h : Takes n (evalParts evaluate form frame) s v t) :
    Takes (n + 1) (evaluate form frame) s v t := by
  rw [evaluate_eq]
  exact h.nested

theorem const (v : Value) (frame : FrameId) (s : Store) :
    Takes 1 (evaluate (.const v) frame) s v s :=
  form (pure v s)

theorem sym {name : String} (h : s.lookup? frame name = some v) :
    Takes 1 (evaluate (.sym name) frame) s v s := by
  refine form (of_run (fun g => ?_) (.refl s))
  simp only [evalParts, lookup_eq, withStore, h]
  rfl

theorem quoted (datum : Form) (frame : FrameId) (s : Store) :
    Takes 1 (evaluate (.quoted datum) frame) s datum.toValue s :=
  form (pure datum.toValue s)

/-- Of the two branches only the one that is chosen takes levels. -/
theorem conditional {test yes no : Form} (htest : Takes n (evaluate test frame) s c t)
    (hbranch : Takes m (evaluate (if c.isTruthy then yes else no) frame) t v u) :
    Takes (max n m + 1)
      (evaluate (.list [.sym SpecialForm.conditional.name, test, yes, no]) frame) s v u := by
  have hconditional : specialHead? (.sym SpecialForm.conditional.name) = some .conditional :=
    SpecialForm.ofName?_name .conditional
  refine form ?_
  simp only [evalParts, hconditional, evalSpecial]
  refine htest.bind ?_
  split at hbranch
  · next hc =>
      rw [if_pos hc]
      exact hbranch
  · next hc =>
      rw [if_neg hc]
      exact hbranch

theorem operands_nil (frame : FrameId) (s : Store) :
    Takes 0 (evalAll evaluate frame []) s [] s :=
  pure [] s

theorem operands_cons {operand : Form} {rest : List Form} {vs : List Value}
    (hfirst : Takes n (evaluate operand frame) s v t)
    (hrest : Takes m (evalAll evaluate frame rest) t vs u) :
    Takes (max n m) (evalAll evaluate frame (operand :: rest)) s (v :: vs) u := by
  have hlist : Takes (max n (max m 0)) (evalAll evaluate frame (operand :: rest)) s (v :: vs) u :=
    hfirst.bind (hrest.bind (pure (v :: vs) u))
  rwa [Nat.max_zero] at hlist

theorem call {head : Form} {operands : List Form} {fn : Value} {args : List Value}
    (hhead : specialHead? head = none) (hfn : Takes n (evaluate head frame) s fn t)
    (hargs : Takes m (evalAll evaluate frame operands) t args u)
    (hcall : Takes k (applyValue fn args frame) u v w) :
    Takes (max n (max m k) + 1) (evaluate (.list (head :: operands)) frame) s v w := by
  refine form ?_
  simp only [evalParts, hhead]
  rw [applyValue_eq_apply] at hcall
  exact hfn.bind (hargs.bind hcall)

theorem body {form : Form} {last : Value} (h : Takes n (evaluate form frame) s v t) :
    Takes n (evalBody evaluate frame last [form]) s v t := by
  have hbody : Takes (max n 0) (evalBody evaluate frame last [form]) s v t := h.bind (pure v t)
  rwa [Nat.max_zero] at hbody

/-! ## Calls -/

variable {id : Nat} {args : List Value} {caller : FrameId}

theorem closure {formals : List String} {code : Code} (hcode : s.codes[id]? = some code)
    (hargs : args.length = formals.length)
    (hbody : Takes n (evalBody evaluate s.frames.size .nil code.body)
      (s.newFrame (formals.zip args) (some code.frame)).2 v t) :
    Takes n (applyValue (.closure id formals) args caller) s v t := by
  have hnew := s.keeps_newFrame (formals.zip args) (some code.frame)
  refine ⟨.closure hcode hargs hbody.yields, fun g hroom => ?_, hnew.trans hbody.keeps⟩
  obtain ⟨w, hrefused, hkeeps⟩ := hbody.refused g hroom
  refine ⟨w, ?_, hnew.trans hkeeps⟩
  rw [applyValue_eq_apply, apply_closure evaluate hcode hargs]
  exact hrefused

/-- A primitive that needs no call takes no level of its own. -/
theorem primitive {op : Builtin} (h : ∀ call, op.run call args = Pure.pure v) (s : Store) :
    Takes 0 (applyValue (.primitive id op) args caller) s v s :=
  of_run (fun g => Yields.primitive h s g (Nat.zero_le g.room)) (.refl s)

theorem call_primitive {op : Builtin} {operands : List Form}
    (hargs : Takes n (evalAll evaluate frame operands) s args t)
    (hop : s.lookup? frame op.name = some (.primitive id op))
    (h : ∀ call, op.run call args = Pure.pure v) :
    Takes (max 1 n + 1) (evaluate (.list (.sym op.name :: operands)) frame) s v t := by
  have hhead : specialHead? (.sym op.name) = none := by cases op <;> decide
  have hcall : Takes 0 (applyValue (.primitive id op) args frame) t v t := .primitive h t
  exact (call hhead (.sym hop) hargs hcall).of_eq (by omega)

end Takes

end Eval

/-! ## Programs of one form -/

/-- A program of one form succeeds if there is room for the levels that the form takes, and is
refused for its depth if there is not. -/
theorem Session.run_of_takes {session : Session} {code : String} {form : Form} {n : Nat}
    {v : Value} {store : Store}
    (hparse : parse session.state.guard.limit code.toList = .ok [form])
    (h : Eval.Takes n (evaluate form session.global) session.state.store v store) :
    (n ≤ session.state.guard.room →
      session.run code = (.ok v, { session with state := { session.state with store } })) ∧
    (session.state.guard.room < n → ∃ store, session.state.store.Keeps store ∧
      session.run code = (.error (.eval (.tooDeep session.state.guard.limit)),
        { session with state := { session.state with store } })) := by
  refine ⟨run_of_yields hparse h.yields, fun hroom => ?_⟩
  obtain ⟨⟨s, g⟩, global⟩ := session
  have hbody : Eval.Takes n (evalBody evaluate global .nil [form]) s v store := h.body
  obtain ⟨u, hrefused, hkeeps⟩ := hbody.refused g hroom
  refine ⟨u, hkeeps, ?_⟩
  simp only [run, hparse, evalForms, hrefused]
  rfl

end TableLisp

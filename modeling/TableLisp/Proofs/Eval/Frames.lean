import TableLisp.Proofs.Eval.Effect

/-!
# The frames that an evaluation changes

Evaluation in a frame makes new frames and binds names in the frame itself. Every other frame that
was there before stays as it was, and in the frame itself only those names change that the form
defines outside quotations and lambda bodies (`Form.targets`). A call changes no frame at all: what
its body defines goes into a frame of its own.

The two relations between the store before and the store after, `Store.ChangesOnly` and
`Store.Keeps`, are preorders, so they compose along a run (`Eval.Within`). The induction is on the
room for nested evaluations; a call is the one place where the relation changes, from a body that
changes its fresh frame to a call that keeps all older ones (`Store.ChangesOnly.keeps_of_newFrame`).
-/

namespace TableLisp

/-! ## The names that a form defines -/

namespace Form

mutual

/-- The targets of the definitions in a form, outside quotations and lambda bodies. A dotted list
fails before anything in it is evaluated. -/
def targets : Form → List String
  | .list (head :: operands) =>
    match specialHead? head with
    | some .quote | some .lambda => []
    | some .define => definitionTargets operands
    | some .conditional | none => targets head ++ targetsAll operands
  | _ => []

/-- The targets in a definition with some operands, which fails before it binds anything unless they
are a symbol and one form. -/
def definitionTargets : List Form → List String
  | [.sym name, form] => name :: targets form
  | _ => []

/-- The targets of the definitions in some forms. -/
def targetsAll : List Form → List String
  | [] => []
  | form :: rest => targets form ++ targetsAll rest

end

theorem targets_subset_targetsAll {form : Form} :
    ∀ {forms : List Form}, form ∈ forms → form.targets ⊆ targetsAll forms
  | f :: rest, hmem => by
      rw [targetsAll]
      rcases List.mem_cons.mp hmem with rfl | hrest
      · exact List.subset_append_left ..
      · exact List.subset_append_of_subset_right _ (targets_subset_targetsAll hrest)

end Form

/-! ## Growth of a frame -/

namespace Frame

/-- The names that a frame binds, in order of definition. -/
def names (f : Frame) : List String :=
  f.bindings.map Prod.fst

theorem names_put (name : String) (v : Value) :
    ∀ bindings : List (String × Value),
      bindings.map Prod.fst <+: (put name v bindings).map Prod.fst
  | [] => List.nil_prefix
  | (key, old) :: rest => by
      by_cases h : key = name
      · simp [put, h]
      · simpa [put, h] using names_put name v rest

/-- A frame after definitions of some names: the frame around it is the same, the names that it
bound are bound in their old order, and every other name has the value that it had, if any. -/
structure Grows (defined : List String) (f g : Frame) : Prop where
  outer : g.outer = f.outer
  kept : f.names <+: g.names
  same : ∀ name, name ∉ defined → g.get? name = f.get? name

theorem Grows.refl (defined : List String) (f : Frame) : f.Grows defined f :=
  ⟨rfl, List.prefix_rfl, fun _ _ => rfl⟩

theorem Grows.trans {defined : List String} {f g h : Frame} (hfg : f.Grows defined g)
    (hgh : g.Grows defined h) : f.Grows defined h where
  outer := hgh.outer.trans hfg.outer
  kept := hfg.kept.trans hgh.kept
  same name hn := (hgh.same name hn).trans (hfg.same name hn)

theorem Grows.mono {defined defined' : List String} {f g : Frame} (h : f.Grows defined g)
    (hsub : defined ⊆ defined') : f.Grows defined' g :=
  { h with same := fun name hn => h.same name fun hmem => hn (hsub hmem) }

theorem grows_define {defined : List String} {name : String} (hmem : name ∈ defined) (f : Frame)
    (v : Value) : f.Grows defined (f.define name v) where
  outer := rfl
  kept := names_put name v f.bindings
  same key hkey := by
    rw [get?_define, if_neg]
    rintro rfl
    exact hkey hmem

end Frame

/-! ## Change of a store -/

namespace Store

/-- Every frame of `s` is the same in `t`. -/
def Keeps (s t : Store) : Prop :=
  ∀ (id : FrameId) (f : Frame), s.frames[id]? = some f → t.frames[id]? = some f

/-- Every frame of `s` but `frame` is the same in `t`, and that one has grown by definitions of some
names. -/
structure ChangesOnly (frame : FrameId) (defined : List String) (s t : Store) : Prop where
  others : ∀ (id : FrameId) (f : Frame),
    id ≠ frame → s.frames[id]? = some f → t.frames[id]? = some f
  own : ∀ f, s.frames[frame]? = some f → ∃ g, t.frames[frame]? = some g ∧ f.Grows defined g

theorem Keeps.changesOnly {s t : Store} (h : s.Keeps t) (frame : FrameId)
    (defined : List String) : s.ChangesOnly frame defined t where
  others id f _ hf := h id f hf
  own f hf := ⟨f, h frame f hf, .refl defined f⟩

theorem keeps_of_frames_eq {s t : Store} (h : t.frames = s.frames) : s.Keeps t := by
  intro id f hf
  rw [h]
  exact hf

theorem keeps_newFrame (s : Store) (bindings : List (String × Value)) (outer : Option FrameId) :
    s.Keeps (s.newFrame bindings outer).2 := by
  intro id f hf
  have hlt : id < s.frames.size := (Array.getElem?_eq_some_iff.mp hf).1
  simp only [newFrame]
  rw [Array.getElem?_push_lt hlt, ← hf, Array.getElem?_eq_getElem hlt]

theorem Keeps.refl (s : Store) : s.Keeps s :=
  fun _ _ hf => hf

theorem Keeps.trans {s t u : Store} (hst : s.Keeps t) (htu : t.Keeps u) : s.Keeps u :=
  fun id f hf => htu id f (hst id f hf)

/-- As long as no frame changes, every name is what it is, seen from any frame that is there. -/
theorem Keeps.lookup?_eq {s t : Store} (h : s.Keeps t) {id : FrameId} (hid : id < s.frames.size)
    (name : String) : t.lookup? id name = s.lookup? id name := by
  induction id using Nat.strongRecOn with
  | ind id ih =>
      have hs : s.frames[id]? = some s.frames[id] := Array.getElem?_eq_getElem hid
      have ht : t.frames[id]? = some s.frames[id] := h id _ hs
      have hget : t.get? id name = s.get? id name := by rw [get?, get?, hs, ht]
      unfold lookup? at ih ⊢
      rw [scope, ht, scope, hs]
      dsimp only
      cases s.frames[id].outer with
      | none => simp only [List.findSome?_cons, List.findSome?_nil, hget]
      | some outer =>
          dsimp only
          by_cases hlt : outer < id
          · have houter := ih outer hlt (Nat.lt_trans hlt hid)
            simp only [if_pos hlt, List.findSome?_cons, hget, houter]
          · simp only [if_neg hlt, List.findSome?_cons, List.findSome?_nil, hget]

theorem ChangesOnly.trans {frame : FrameId} {defined : List String} {s t u : Store}
    (hst : s.ChangesOnly frame defined t) (htu : t.ChangesOnly frame defined u) :
    s.ChangesOnly frame defined u where
  others id f hid hf := htu.others id f hid (hst.others id f hid hf)
  own f hf := by
    obtain ⟨g, hg, hfg⟩ := hst.own f hf
    obtain ⟨h, hh, hgh⟩ := htu.own g hg
    exact ⟨h, hh, hfg.trans hgh⟩

theorem ChangesOnly.mono {frame : FrameId} {defined defined' : List String} {s t : Store}
    (h : s.ChangesOnly frame defined t) (hsub : defined ⊆ defined') :
    s.ChangesOnly frame defined' t where
  others := h.others
  own f hf := by
    obtain ⟨g, hg, hfg⟩ := h.own f hf
    exact ⟨g, hg, hfg.mono hsub⟩

theorem changesOnly_define (s : Store) (frame : FrameId) {defined : List String} {name : String}
    (hmem : name ∈ defined) (v : Value) : s.ChangesOnly frame defined (s.define frame name v) where
  others id f hid hf := by
    rw [define, Array.getElem?_modify, if_neg (Ne.symm hid)]
    exact hf
  own f hf := by
    refine ⟨f.define name v, ?_, Frame.grows_define hmem f v⟩
    rw [define, Array.getElem?_modify, if_pos rfl, hf]
    rfl

/-- What happens in a fresh frame alone changes no frame that was there before. -/
theorem ChangesOnly.keeps_of_newFrame {s t : Store} {bindings : List (String × Value)}
    {outer : Option FrameId} {defined : List String}
    (h : (s.newFrame bindings outer).2.ChangesOnly s.frames.size defined t) : s.Keeps t := by
  intro id f hf
  have hlt : id < s.frames.size := (Array.getElem?_eq_some_iff.mp hf).1
  exact h.others id f (Nat.ne_of_lt hlt) (keeps_newFrame s bindings outer id f hf)

end Store

/-! ## Change of a state -/

namespace State

/-- `Store.Keeps` on the stores of two states. -/
def Keeps (s t : State) : Prop :=
  s.store.Keeps t.store

/-- `Store.ChangesOnly` on the stores of two states. -/
def ChangesOnly (frame : FrameId) (defined : List String) (s t : State) : Prop :=
  s.store.ChangesOnly frame defined t.store

instance : IsPreorder State Keeps where
  refl s := Store.Keeps.refl s.store
  trans _ _ _ hst htu := Store.Keeps.trans hst htu

instance (frame : FrameId) (defined : List String) :
    IsPreorder State (ChangesOnly frame defined) where
  refl _ := { others := fun _ _ _ hf => hf, own := fun f hf => ⟨f, hf, .refl defined f⟩ }
  trans _ _ _ hst htu := Store.ChangesOnly.trans hst htu

end State

/-! ## Parts of an evaluation -/

open Eval

theorem Eval.Within.changesOnly {x : Eval α} (h : Within State.Keeps x) (frame : FrameId)
    (defined : List String) : Within (State.ChangesOnly frame defined) x :=
  fun s => (h s).changesOnly frame defined

theorem Eval.Within.mono {frame : FrameId} {defined defined' : List String} {x : Eval α}
    (h : Within (State.ChangesOnly frame defined) x) (hsub : defined ⊆ defined') :
    Within (State.ChangesOnly frame defined') x :=
  fun s => (h s).mono hsub

/-- A way of evaluating under which a form changes its own frame alone, and there only what it
defines. -/
def Confined (eval : Evaluator) : Prop :=
  ∀ form frame, Within (State.ChangesOnly frame form.targets) (eval form frame)

theorem Confined.form {eval : Evaluator} (h : Confined eval) (frame : FrameId) {form : Form}
    {defined : List String} (hsub : form.targets ⊆ defined) :
    Within (State.ChangesOnly frame defined) (eval form frame) :=
  (h form frame).mono hsub

theorem Confined.forms {eval : Evaluator} (h : Confined eval) (frame : FrameId)
    {forms : List Form} {defined : List String} (hsub : Form.targetsAll forms ⊆ defined) :
    ∀ form ∈ forms, Within (State.ChangesOnly frame defined) (eval form frame) :=
  fun _ hmem => h.form frame fun _ hname => hsub (Form.targets_subset_targetsAll hmem hname)

theorem applyClosure_keeps {eval : Evaluator} (h : Confined eval) (id : Nat)
    (formals : List String) (args : List Value) :
    Within State.Keeps (applyClosure eval id formals args) := by
  intro s
  rw [after_applyClosure]
  split
  · exact refl_of State.Keeps s
  · split
    · exact refl_of State.Keeps s
    · next code _ =>
        let fresh := s.store.frames.size
        have hbody : Within (State.ChangesOnly fresh (Form.targetsAll code.body))
            (evalBody eval fresh .nil code.body) :=
          Within.compositional.evalBody eval eval fresh .nil code.body
            (h.forms fresh (List.Subset.refl _))
        exact Store.ChangesOnly.keeps_of_newFrame
          (hbody { s with store := (s.store.newFrame (formals.zip args) (some code.frame)).2 })

theorem applyWith_keeps {eval : Evaluator} (h : Confined eval)
    {call : Value → Value → Eval Value} (hcall : ∀ fn arg, Within State.Keeps (call fn arg))
    (fn : Value) (args : List Value) : Within State.Keeps (applyWith eval call fn args) := by
  cases fn with
  | closure id formals => exact applyClosure_keeps h id formals args
  | primitive id op => exact Within.compositional.run call call hcall op args
  | _ => exact Within.throw _

/-- A call changes no frame, and neither does a call that a primitive makes. -/
theorem apply_keeps {eval : Evaluator} (h : Confined eval) (fn : Value) (args : List Value)
    (caller : FrameId) : Within State.Keeps (apply eval fn args caller) :=
  applyWith_keeps h (fun fn arg => applyWith_keeps h (fun _ _ => Within.pure _) fn [arg]) fn args

theorem define_changesOnly (frame : FrameId) {defined : List String} {name : String}
    (hmem : name ∈ defined) (v : Value) :
    Within (State.ChangesOnly frame defined) (Eval.define frame name v) :=
  fun s => Store.changesOnly_define s.store frame hmem v

theorem newClosure_keeps (formals : List String) (code : Code) :
    Within State.Keeps (onStore (·.newClosure formals code)) :=
  fun _ => Store.keeps_of_frames_eq rfl

theorem evalSpecial_changesOnly {eval : Evaluator} (h : Confined eval) (frame : FrameId)
    {head : Form} {form : SpecialForm} (hhead : specialHead? head = some form)
    (operands : List Form) :
    Within (State.ChangesOnly frame (Form.list (head :: operands)).targets)
      (evalSpecial eval frame form operands) := by
  obtain ⟨datum, rfl, rfl⟩ | ⟨name, value, rfl, rfl⟩ | ⟨params, first, rest, rfl, rfl⟩ |
    ⟨test, yes, no, rfl, rfl⟩ | ⟨e, -, hrefused⟩ := evalSpecial_shapes form operands
  · exact Within.pure _
  · have htargets : (Form.list [head, .sym name, value]).targets = name :: value.targets := by
      simp only [Form.targets, hhead, Form.definitionTargets]
    rw [htargets]
    refine (h.form frame (List.subset_cons_self ..)).bind fun v => ?_
    exact (define_changesOnly frame List.mem_cons_self v).bind fun _ => Within.pure v
  · refine (Within.ofExcept _).bind fun formals => ?_
    exact (newClosure_keeps formals ⟨first :: rest, frame⟩).changesOnly frame _
  · have htargets : (Form.list [head, test, yes, no]).targets =
        head.targets ++ Form.targetsAll [test, yes, no] := by
      simp only [Form.targets, hhead]
    have hoperands := h.forms frame (htargets ▸ List.subset_append_right ..)
    refine (hoperands test (by simp)).bind fun v => ?_
    split
    · exact hoperands yes (by simp)
    · exact hoperands no (by simp)
  · rw [hrefused]
    exact Within.throw e

theorem evalParts_changesOnly {eval : Evaluator} (h : Confined eval) (form : Form)
    (frame : FrameId) :
    Within (State.ChangesOnly frame form.targets) (evalParts eval form frame) := by
  fun_cases evalParts eval form frame with
  | case1 v => exact Within.pure v
  | case2 name => exact Within.lookup frame name
  | case3 => exact Within.throw _
  | case4 => exact Within.pure _
  | case5 head operands form hhead => exact evalSpecial_changesOnly h frame hhead operands
  | case6 head operands hhead =>
      have htargets : (Form.list (head :: operands)).targets =
          head.targets ++ Form.targetsAll operands := by
        simp only [Form.targets, hhead]
      rw [htargets]
      refine (h.form frame (List.subset_append_left ..)).bind fun fn => ?_
      have hargs := h.forms frame (List.subset_append_right head.targets (Form.targetsAll operands))
      refine Within.bind (Within.compositional.evalAll eval eval frame operands hargs) ?_
      exact fun args => (apply_keeps h fn args frame).changesOnly frame _

/-! ## The evaluator -/

theorem Eval.Within.nested {frame : FrameId} {defined : List String} {x : Eval α}
    (h : Within (State.ChangesOnly frame defined) x) :
    Within (State.ChangesOnly frame defined) (Eval.nested x) := by
  intro s
  rw [after_nested]
  split
  · exact refl_of (State.ChangesOnly frame defined) s
  · next guard _ => exact h { s with guard }

theorem evalWith_confined : ∀ room : Nat, Confined (evalWith room)
  | 0, _, _ => (Within.pure _).nested
  | room + 1, form, frame =>
      (evalParts_changesOnly (evalWith_confined room) form frame).nested

/-- **Effect on the frames.** Evaluating a form in a frame leaves every other frame as it was, and
in the frame itself it removes no binding and touches no name but those that the form defines there,
whatever the evaluation comes to. A call leaves every frame as it was, and so do the calls that
a grouping makes of its key function, up to the end of the table or to the row that fails. -/
theorem frames_after_evaluation :
    (∀ (form : Form) (frame : FrameId) (s : State),
      s.store.ChangesOnly frame form.targets ((evaluate form frame).after s).store) ∧
    (∀ (fn : Value) (args : List Value) (caller : FrameId) (s : State),
      s.store.Keeps ((applyValue fn args caller).after s).store) ∧
    (∀ (keyFunction : Value) (rows : List Value) (caller : FrameId) (s : State),
      s.store.Keeps
        ((Builtin.keyRows (fun row => applyValue keyFunction [row] caller) rows).after s).store) := by
  have happly (fn : Value) (args : List Value) (caller : FrameId) :
      Within State.Keeps (applyValue fn args caller) :=
    fun s => apply_keeps (evalWith_confined s.guard.room) fn args caller s
  refine ⟨fun form frame s => ?_, happly, fun keyFunction rows caller => ?_⟩
  · exact evalWith_confined s.guard.room form frame s
  · let call row := applyValue keyFunction [row] caller
    exact Within.compositional.keyRows call call (fun row => happly keyFunction [row] caller) rows

end TableLisp

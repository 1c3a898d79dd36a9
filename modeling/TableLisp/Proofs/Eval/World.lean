import TableLisp.Proofs.Eval.Correspondence

/-!
# The world of a session

What a session can ever come upon is its `World`: the frames that lie inside its global one, and the
atoms that it has been given or can make of those (`Supply`). A store is sound for a world if its
frames lie one inside the other down to the global one and bind only sound values, which are made of
atoms of the supply and of closures whose code is there, was made in a frame of the session, and
takes its own atoms from the supply (`World.SoundStore`, `World.SoundValue`).

A store stays sound when a sound value is defined and when a frame or a closure is made, and what is
found under a name is sound.
-/

namespace TableLisp

open Text

/-! ## Atoms -/

namespace Value

/-- The parts of a value that are no pairs. What a closure refers to is not part of it. -/
def leaves : Value → List Value
  | .pair head tail => leaves head ++ leaves tail
  | v => [v]

theorem leaves_chain (heads : List Value) (tail : Value) :
    (chain heads tail).leaves = heads.flatMap leaves ++ tail.leaves := by
  induction heads with
  | nil => rfl
  | cons head heads ih =>
      have hcons : chain (head :: heads) tail = .pair head (chain heads tail) := rfl
      rw [hcons, leaves, ih, List.flatMap_cons, List.append_assoc]

end Value

namespace Form

theorem leaves_toValue_list (items : List Form) :
    (list items).toValue.leaves = items.flatMap (·.toValue.leaves) ++ [.nil] := by
  rw [toValue, values_eq_map, Value.ofList, Value.leaves_chain, List.flatMap_map]
  rfl

theorem leaves_toValue_dotted (items : List Form) (tail : Form) :
    (dotted items tail).toValue.leaves =
      items.flatMap (·.toValue.leaves) ++ tail.toValue.leaves := by
  rw [toValue, values_eq_map, Value.leaves_chain, List.flatMap_map]

end Form

/-- Atoms that may occur in values. With an integer goes its decimal text, and with a symbol its
name, for these are the strings that a grouping makes. -/
structure Supply where
  ints : Set Int
  syms : Set String
  strs : Set String
  text_mem : ∀ {n : Int}, n ∈ ints → Numeral.text n ∈ strs
  name_mem : ∀ {name : String}, name ∈ syms → name ∈ strs

namespace Supply

/-- The atoms among some values, and what goes with them. -/
def of (given : Set Value) : Supply where
  ints := { n | .int n ∈ given }
  syms := { name | .sym name ∈ given }
  strs := { text | .str text ∈ given ∨ .sym text ∈ given ∨
    ∃ n, .int n ∈ given ∧ text = Numeral.text n }
  text_mem h := Or.inr (Or.inr ⟨_, h, rfl⟩)
  name_mem h := Or.inr (Or.inl h)

/-- A form with constants that source text can spell, all of whose atoms are supplied. -/
inductive Covers (σ : Supply) : Form → Prop
  | nil : Covers σ (.const .nil)
  | int {n : Int} (h : n ∈ σ.ints) : Covers σ (.const (.int n))
  | str {text : String} (h : text ∈ σ.strs) : Covers σ (.const (.str text))
  | sym {name : String} (h : name ∈ σ.syms) : Covers σ (.sym name)
  | list {items : List Form} (h : ∀ item ∈ items, Covers σ item) : Covers σ (.list items)
  | dotted {items : List Form} {tail : Form} (h : ∀ item ∈ items, Covers σ item)
      (htail : Covers σ tail) : Covers σ (.dotted items tail)

theorem Covers.items {σ : Supply} {items : List Form} (h : σ.Covers (.list items)) :
    ∀ item ∈ items, σ.Covers item := by
  cases h with
  | list h => exact h

/-- The atoms of a form are those of the value that it stands for when it is quoted. -/
theorem covers_of {given : Set Value} {form : Form} (h : form.Readable)
    (hgiven : ∀ a ∈ form.toValue.leaves, a ∈ given) : (of given).Covers form := by
  induction h with
  | nil => exact .nil
  | int _ => exact .int (hgiven _ (List.mem_singleton_self _))
  | str _ => exact .str (Or.inl (hgiven _ (List.mem_singleton_self _)))
  | sym _ => exact .sym (hgiven _ (List.mem_singleton_self _))
  | list _ _ ih =>
      rw [Form.leaves_toValue_list, List.forall_mem_append, List.forall_mem_flatMap] at hgiven
      exact .list fun item hitem => ih item hitem (hgiven.1 item hitem)
  | dotted _ _ _ ih ihtail =>
      rw [Form.leaves_toValue_dotted, List.forall_mem_append, List.forall_mem_flatMap] at hgiven
      exact .dotted (fun item hitem => ih item hitem (hgiven.1 item hitem)) (ihtail hgiven.2)

end Supply

/-! ## Soundness -/

/-- The world of a session: the number of its global frame, and the atoms that may occur. -/
structure World extends Supply where
  root : FrameId

namespace World

/-- The world of a session that has been given some atoms. -/
def of (root : FrameId) (given : Set Value) : World :=
  { Supply.of given with root }

/-- The world of a session of which nothing is known but its global frame. -/
def whole (root : FrameId) : World :=
  .of root Set.univ

/-- A frame of the session that is there. -/
structure Inside (ω : World) (s : Store) (id : FrameId) : Prop where
  le : ω.root ≤ id
  lt : id < s.frames.size

/-- A code that was made in a frame of the session, with a body of covered forms. -/
structure SoundCode (ω : World) (s : Store) (code : Code) : Prop where
  frame : ω.Inside s code.frame
  nonempty : code.body ≠ []
  covered : ∀ form ∈ code.body, ω.Covers form

/-- A value of supplied atoms and of closures with sound code and different parameters. -/
inductive SoundValue (ω : World) (s : Store) : Value → Prop
  | nil : SoundValue ω s .nil
  | bool (b : Bool) : SoundValue ω s (.bool b)
  | int {n : Int} (h : n ∈ ω.ints) : SoundValue ω s (.int n)
  | str {text : String} (h : text ∈ ω.strs) : SoundValue ω s (.str text)
  | sym {name : String} (h : name ∈ ω.syms) : SoundValue ω s (.sym name)
  | pair {head tail : Value} (hhead : SoundValue ω s head) (htail : SoundValue ω s tail) :
      SoundValue ω s (.pair head tail)
  | closure {id : Nat} {formals : List String} {code : Code} (hcode : s.codes[id]? = some code)
      (hsound : ω.SoundCode s code) (hnodup : formals.Nodup) : SoundValue ω s (.closure id formals)
  | primitive (id : Nat) (op : Builtin) : SoundValue ω s (.primitive id op)

/-- An error that is about a sound value, or about none. -/
def SoundError (ω : World) (s : Store) (e : EvalError) : Prop :=
  ∀ v, e.culprit? = some v → ω.SoundValue s v

/-- A frame that binds sound values. It is the global one, or lies inside an older frame of the
session. -/
structure SoundFrame (ω : World) (s : Store) (id : FrameId) (f : Frame) : Prop where
  bound : ∀ name v, f.get? name = some v → ω.SoundValue s v
  root : f.outer = none → id = ω.root
  older : ∀ o, f.outer = some o → ω.root ≤ o ∧ o < id

/-- A store in which the global frame is there and every frame of the session is sound. -/
structure SoundStore (ω : World) (s : Store) : Prop where
  root : ω.root < s.frames.size
  frames : ∀ id f, ω.root ≤ id → s.frames[id]? = some f → ω.SoundFrame s id f

variable {ω : World} {s t : Store}

/-! ### Later stores -/

theorem Inside.mono {id : FrameId} (hext : s.Extends t) (h : ω.Inside s id) : ω.Inside t id :=
  ⟨h.le, Nat.lt_of_lt_of_le h.lt hext.frames⟩

theorem SoundCode.mono {code : Code} (hext : s.Extends t) (h : ω.SoundCode s code) :
    ω.SoundCode t code :=
  { h with frame := h.frame.mono hext }

namespace SoundValue

variable {v : Value}

theorem mono (hext : s.Extends t) (h : ω.SoundValue s v) : ω.SoundValue t v := by
  induction h with
  | pair _ _ ihhead ihtail => exact .pair ihhead ihtail
  | closure hcode hsound hnodup => exact .closure (hext.codes _ _ hcode) (hsound.mono hext) hnodup
  | _ => constructor <;> assumption

theorem mono_all {vs : List Value} (hext : s.Extends t) (h : ∀ v ∈ vs, ω.SoundValue s v) :
    ∀ v ∈ vs, ω.SoundValue t v :=
  fun v hv => (h v hv).mono hext

/-! ### Parts of a value -/

theorem of_mem_leaves {a : Value} (h : ω.SoundValue s v) (ha : a ∈ v.leaves) :
    ω.SoundValue s a := by
  induction h with
  | pair _ _ ihhead ihtail => exact (List.mem_append.mp ha).elim ihhead ihtail
  | closure hcode hsound hnodup =>
      obtain rfl := List.mem_singleton.mp ha
      exact .closure hcode hsound hnodup
  | _ =>
      obtain rfl := List.mem_singleton.mp ha
      constructor <;> assumption

theorem elements (h : ω.SoundValue s v) : ∀ element ∈ v.elements, ω.SoundValue s element := by
  induction h with
  | pair hhead _ _ ihtail => exact List.forall_mem_cons.mpr ⟨hhead, ihtail⟩
  | _ => exact List.forall_mem_nil _

theorem chain {heads : List Value} {tail : Value} (hheads : ∀ head ∈ heads, ω.SoundValue s head)
    (htail : ω.SoundValue s tail) : ω.SoundValue s (.chain heads tail) := by
  induction heads with
  | nil => exact htail
  | cons head heads ih =>
      obtain ⟨hhead, hheads⟩ := List.forall_mem_cons.mp hheads
      exact .pair hhead (ih hheads)

theorem ofList {elements : List Value} (h : ∀ element ∈ elements, ω.SoundValue s element) :
    ω.SoundValue s (.ofList elements) :=
  chain h .nil

/-- A value without closures, all of whose atoms have been given. -/
theorem of_given {root : FrameId} {given : Set Value} (hplain : v.closures = [])
    (hgiven : ∀ a ∈ v.leaves, a ∈ given) : (World.of root given).SoundValue s v := by
  induction v with
  | pair head tail ihhead ihtail =>
      obtain ⟨hhead, htail⟩ := List.append_eq_nil_iff.mp hplain
      rw [Value.leaves, List.forall_mem_append] at hgiven
      exact .pair (ihhead hhead hgiven.1) (ihtail htail hgiven.2)
  | closure => cases hplain
  | nil => exact .nil
  | bool b => exact .bool b
  | primitive id op => exact .primitive id op
  | int n => exact .int (hgiven _ (List.mem_singleton_self _))
  | str text => exact .str (Or.inl (hgiven _ (List.mem_singleton_self _)))
  | sym name => exact .sym (hgiven _ (List.mem_singleton_self _))

/-- What a covered form stands for when it is quoted. -/
theorem toValue {form : Form} (h : ω.Covers form) : ω.SoundValue s form.toValue := by
  induction h with
  | nil => exact .nil
  | int h => exact .int h
  | str h => exact .str h
  | sym h => exact .sym h
  | list _ ih =>
      rw [Form.toValue, Form.values_eq_map]
      exact ofList (List.forall_mem_map.mpr ih)
  | dotted _ _ ih ihtail =>
      rw [Form.toValue, Form.values_eq_map]
      exact chain (List.forall_mem_map.mpr ih) ihtail

end SoundValue

namespace SoundError

variable {e : EvalError}

theorem of_culprit? {v : Value} (h : e.culprit? = some v) (hv : ω.SoundValue s v) :
    ω.SoundError s e := by
  intro w hw
  obtain rfl := Option.some.inj (h.symm.trans hw)
  exact hv

theorem of_none (h : e.culprit? = none) : ω.SoundError s e := by
  intro v hv
  rw [h] at hv
  cases hv

theorem mono (hext : s.Extends t) (h : ω.SoundError s e) : ω.SoundError t e :=
  fun v hv => (h v hv).mono hext

end SoundError

theorem SoundFrame.mono {id : FrameId} {f : Frame} (hext : s.Extends t)
    (h : ω.SoundFrame s id f) : ω.SoundFrame t id f :=
  { h with bound := fun name v hv => (h.bound name v hv).mono hext }

theorem SoundFrame.define {id : FrameId} {f : Frame} (h : ω.SoundFrame s id f) (name : String)
    {v : Value} (hv : ω.SoundValue s v) : ω.SoundFrame s id (f.define name v) where
  bound key w hw := by
    rw [Frame.get?_define] at hw
    split at hw
    · obtain rfl := Option.some.inj hw
      exact hv
    · exact h.bound key w hw
  root := h.root
  older := h.older

/-! ### Steps of a store -/

namespace SoundStore

variable (h : ω.SoundStore s)

include h

theorem inside_root : ω.Inside s ω.root :=
  ⟨Nat.le_refl _, h.root⟩

theorem outer_root {f : Frame} (hf : s.frames[ω.root]? = some f) : f.outer = none := by
  cases ho : f.outer with
  | none => rfl
  | some o =>
      obtain ⟨hle, hlt⟩ := (h.frames _ f (Nat.le_refl _) hf).older o ho
      exact absurd hlt (Nat.not_lt.mpr hle)

/-- What is bound in a frame of the session is sound. -/
theorem get? {id : FrameId} (hle : ω.root ≤ id) (name : String) (v : Value)
    (hv : s.get? id name = some v) : ω.SoundValue s v := by
  obtain ⟨f, hf, hbound⟩ := Option.bind_eq_some_iff.mp hv
  exact (h.frames id f hle hf).bound name v hbound

/-- From frame to frame outward in the session: what holds at the global frame, and at a frame if it
holds at the one around it, holds at every frame. -/
theorem inward {p : FrameId → Prop}
    (root : ∀ f, s.frames[ω.root]? = some f → f.outer = none → p ω.root)
    (inner : ∀ id f o, ω.Inside s id → s.frames[id]? = some f → f.outer = some o → o < id →
      ω.Inside s o → p o → p id) {id : FrameId} (hid : ω.Inside s id) : p id := by
  induction id using Nat.strongRecOn with
  | _ id ih =>
      obtain ⟨f, hf⟩ : ∃ f, s.frames[id]? = some f := ⟨_, Array.getElem?_eq_getElem hid.lt⟩
      have hsound := h.frames id f hid.le hf
      cases ho : f.outer with
      | none =>
          obtain rfl := hsound.root ho
          exact root f hf ho
      | some o =>
          obtain ⟨hle, hlt⟩ := hsound.older o ho
          have ho' : ω.Inside s o := ⟨hle, Nat.lt_trans hlt hid.lt⟩
          exact inner id f o hid hf ho hlt ho' (ih o hlt ho')

theorem lookup? {id : FrameId} (hid : ω.Inside s id) (name : String) :
    ∀ v, s.lookup? id name = some v → ω.SoundValue s v := by
  refine h.inward (p := fun id => ∀ v, s.lookup? id name = some v → ω.SoundValue s v) ?_ ?_ hid
  · intro f hf ho v hv
    rw [Store.lookup?_root hf ho] at hv
    exact (h.frames _ f (Nat.le_refl _) hf).bound name v hv
  · intro id f o hid hf ho hlt _ ih v hv
    rw [Store.lookup?_inner hf ho hlt, Option.or_eq_some_iff] at hv
    rcases hv with hv | ⟨-, hv⟩
    · exact (h.frames id f hid.le hf).bound name v hv
    · exact ih v hv

theorem define (id : FrameId) (name : String) {v : Value} (hv : ω.SoundValue s v) :
    ω.SoundStore (s.define id name v) where
  root := Nat.lt_of_lt_of_le h.root (s.extends_define id name v).frames
  frames id' f hle hf := by
    refine SoundFrame.mono (s.extends_define id name v) ?_
    by_cases heq : id = id'
    · obtain rfl := heq
      rw [Store.define, Array.getElem?_modify, if_pos rfl, Option.map_eq_some_iff] at hf
      obtain ⟨f, hf, rfl⟩ := hf
      exact (h.frames id f hle hf).define name hv
    · rw [Store.define, Array.getElem?_modify, if_neg heq] at hf
      exact h.frames id' f hle hf

theorem newFrame {bindings : List (String × Value)} {outer : FrameId}
    (hbound : ∀ name v, bindings.lookup name = some v → ω.SoundValue s v)
    (houter : ω.Inside s outer) : ω.SoundStore (s.newFrame bindings (some outer)).2 where
  root := Nat.lt_of_lt_of_le h.root (s.extends_newFrame bindings _).frames
  frames id f hle hf := by
    refine SoundFrame.mono (s.extends_newFrame bindings _) ?_
    rw [Store.newFrame, Array.getElem?_push] at hf
    split at hf
    · next heq =>
        obtain rfl := Option.some.inj hf
        refine ⟨hbound, fun hnone => ?_, fun o ho => ?_⟩
        · cases hnone
        · obtain rfl := Option.some.inj ho
          exact ⟨houter.le, heq ▸ houter.lt⟩
    · exact h.frames id f hle hf

theorem newClosure {formals : List String} {code : Code} (hcode : ω.SoundCode s code)
    (hnodup : formals.Nodup) :
    ω.SoundStore (s.newClosure formals code).2 ∧
      ω.SoundValue (s.newClosure formals code).2 (s.newClosure formals code).1 := by
  have hext := s.extends_newClosure formals code
  constructor
  · exact ⟨h.root, fun id f hle hf => (h.frames id f hle hf).mono hext⟩
  · exact .closure Array.getElem?_push_size (hcode.mono hext) hnodup

end SoundStore

end World

end TableLisp

import Mathlib.Data.List.Forall2
import Mathlib.Order.Defs.Unbundled
import TableLisp.Proofs.Form.Renaming
import TableLisp.Proofs.Eval.Frames
import TableLisp.Proofs.Store.Lookup

/-!
# Stores side by side

Two runs that differ in the numbers of their frames and closures, or in the symbols of their
programs, still do the same. A `Correspondence` says which frames and which closures of the one run
stand for which of the other, and how symbols are renamed between them. What it leaves out, a frame
or a symbol that has no partner, may be anything, since nothing that has a partner refers to it.

From the correspondence follows when two values, two frames and at last two stores are the same but
for it (`SameValue`, `SameFrame`, `SameStore`). What is done to both of two such stores, be it a
lookup, a definition, or the making of a frame or a closure, comes to the same and leaves the stores
the same.
-/

namespace TableLisp

/-! ## Closures in values -/

namespace Value

/-- The numbers of the closures in a value. -/
def closures : Value → List Nat
  | .closure id _ => [id]
  | .pair head tail => closures head ++ closures tail
  | _ => []

/-- Renames the parameters of the closures in a value. -/
def rename (f : String → String) : Value → Value
  | .closure id formals => .closure id (formals.map f)
  | .pair head tail => .pair (rename f head) (rename f tail)
  | v => v

theorem rename_id (v : Value) : v.rename id = v := by
  induction v with
  | pair head tail ihhead ihtail => rw [rename, ihhead, ihtail]
  | closure id formals => rw [rename, List.map_id]
  | _ => rfl

theorem closures_chain (heads : List Value) (tail : Value) :
    (chain heads tail).closures = heads.flatMap closures ++ tail.closures := by
  induction heads with
  | nil => rfl
  | cons head heads ih =>
      have hcons : chain (head :: heads) tail = .pair head (chain heads tail) := rfl
      rw [hcons, closures, ih, List.flatMap_cons, List.append_assoc]

end Value

/-- What is quoted in source text is data without closures. -/
theorem Form.Readable.closures_toValue {form : Form} (h : form.Readable) :
    form.toValue.closures = [] := by
  induction h with
  | list _ _ ih =>
      rw [toValue, values_eq_map, Value.ofList, Value.closures_chain, List.append_eq_nil_iff,
        List.flatMap_map, List.flatMap_eq_nil_iff]
      exact ⟨ih, rfl⟩
  | dotted _ _ _ ih ihtail =>
      rw [toValue, values_eq_map, Value.closures_chain, List.append_eq_nil_iff,
        List.flatMap_map, List.flatMap_eq_nil_iff]
      exact ⟨ih, ihtail⟩
  | _ => rfl

/-! ## Correspondences -/

/-- Which frames and codes of two stores stand for each other, and how symbols are renamed. -/
structure Correspondence extends Renaming where
  frame : FrameId → FrameId → Prop
  code : Nat → Nat → Prop
  frame_unique : Relator.BiUnique frame
  code_unique : Relator.BiUnique code

namespace Correspondence

/-- Two values that are the same but for a correspondence, with closures among the first `n`. -/
inductive SameValue (ρ : Correspondence) (n : Nat) : Value → Value → Prop
  | nil : SameValue ρ n .nil .nil
  | bool (b : Bool) : SameValue ρ n (.bool b) (.bool b)
  | int (i : Int) : SameValue ρ n (.int i) (.int i)
  | str (text : String) : SameValue ρ n (.str text) (.str text)
  | sym (name : String) : SameValue ρ n (.sym name) (.sym name)
  | pair {head head' tail tail' : Value} (hhead : SameValue ρ n head head')
      (htail : SameValue ρ n tail tail') : SameValue ρ n (.pair head tail) (.pair head' tail')
  | closure {id id' : Nat} {formals formals' : List String} (hlt : id < n)
      (hcode : ρ.code id id') (hformals : List.Forall₂ ρ.Name formals formals') :
      SameValue ρ n (.closure id formals) (.closure id' formals')
  | primitive (id : Nat) (op : Builtin) : SameValue ρ n (.primitive id op) (.primitive id op)

variable {ρ : Correspondence} {n m : Nat} {v v' w w' : Value}

/-! ## Values that are the same -/

namespace SameValue

theorem mono (hle : n ≤ m) (h : ρ.SameValue n v v') : ρ.SameValue m v v' := by
  induction h with
  | pair _ _ hhead htail => exact .pair hhead htail
  | closure hlt hcode hformals => exact .closure (Nat.lt_of_lt_of_le hlt hle) hcode hformals
  | _ => constructor

theorem biUnique : Relator.BiUnique (ρ.SameValue n) := by
  constructor
  · intro a b c ha
    induction ha generalizing b with
    | pair _ _ ihhead ihtail =>
        rintro (_ | _ | _ | _ | _ | ⟨hhead, htail⟩)
        rw [ihhead hhead, ihtail htail]
    | closure _ hcode hformals =>
        rintro (_ | _ | _ | _ | _ | _ | ⟨_, hcode', hformals'⟩)
        rw [ρ.code_unique.1 hcode hcode', Renaming.name_biUnique.forall₂.1 hformals hformals']
    | _ =>
        rintro ⟨⟩
        rfl
  · intro a b c ha
    induction ha generalizing c with
    | pair _ _ ihhead ihtail =>
        rintro (_ | _ | _ | _ | _ | ⟨hhead, htail⟩)
        rw [ihhead hhead, ihtail htail]
    | closure _ hcode hformals =>
        rintro (_ | _ | _ | _ | _ | _ | ⟨_, hcode', hformals'⟩)
        rw [ρ.code_unique.2 hcode hcode', Renaming.name_biUnique.forall₂.2 hformals hformals']
    | _ =>
        rintro ⟨⟩
        rfl

/-- The language's equality does not tell the two sides apart. -/
theorem isEqual_eq (hv : ρ.SameValue n v v') (hw : ρ.SameValue n w w') :
    v.isEqual w = v'.isEqual w' := by
  have hiff : v = w ↔ v' = w' := Relator.rel_eq biUnique hv hw
  rw [Bool.eq_iff_iff, Value.isEqual_iff, Value.isEqual_iff, hiff]

theorem of_closures_eq_nil (h : v.closures = []) : ρ.SameValue n v v := by
  induction v with
  | pair head tail ihhead ihtail =>
      obtain ⟨hhead, htail⟩ := List.append_eq_nil_iff.mp h
      exact .pair (ihhead hhead) (ihtail htail)
  | closure => cases h
  | _ => constructor

theorem isTruthy_eq (h : ρ.SameValue n v v') : v.isTruthy = v'.isTruthy := by
  cases h <;> rfl

theorem isProcedure_eq (h : ρ.SameValue n v v') : v.isProcedure = v'.isProcedure := by
  cases h <;> rfl

theorem isProper_eq (h : ρ.SameValue n v v') : v.isProper = v'.isProper := by
  induction h with
  | pair _ _ _ ihtail => exact ihtail
  | _ => rfl

theorem elements (h : ρ.SameValue n v v') :
    List.Forall₂ (ρ.SameValue n) v.elements v'.elements := by
  induction h with
  | pair hhead _ _ ihtail => exact .cons hhead ihtail
  | _ => exact .nil

theorem ofList {vs vs' : List Value} (h : List.Forall₂ (ρ.SameValue n) vs vs') :
    ρ.SameValue n (.ofList vs) (.ofList vs') := by
  induction h with
  | nil => exact .nil
  | cons hhead _ ih => exact .pair hhead ih

/-! ### What two such values have in common -/

theorem formals_eq {formals formals' : List String}
    (h : List.Forall₂ ρ.Name formals formals') : formals' = formals.map ρ.apply := by
  induction h with
  | nil => rfl
  | cons hname _ ih => rw [ih, hname.2, List.map_cons]

theorem textWith_eq (hnames : ρ.apply = id) (h : ρ.SameValue n v v') :
    v'.textWith Value.atomText = v.textWith Value.atomText ∧
      v'.tailWith Value.atomText = v.tailWith Value.atomText := by
  induction h with
  | pair _ _ ihhead ihtail =>
      simp only [Value.textWith, Value.tailWith, ihhead.1, ihtail.2, and_self]
  | closure _ _ hformals =>
      rw [formals_eq hformals, hnames, List.map_id]
      exact ⟨rfl, rfl⟩
  | _ => exact ⟨rfl, rfl⟩

/-- If no name is renamed, the two sides print the same. -/
theorem text_eq (hnames : ρ.apply = id) (h : ρ.SameValue n v v') : v'.text = v.text :=
  (textWith_eq hnames h).1

theorem isWritable_eq (h : ρ.SameValue n v v') : v'.isWritable = v.isWritable := by
  induction h with
  | pair _ _ ihhead ihtail => rw [Value.isWritable, Value.isWritable, ihhead, ihtail]
  | _ => rfl

/-- If no closure changes its number, the second side is the first one renamed. -/
theorem eq_rename (hcodes : ∀ id id', ρ.code id id' → id' = id) (h : ρ.SameValue n v v') :
    v' = v.rename ρ.apply := by
  induction h with
  | pair _ _ ihhead ihtail => rw [ihhead, ihtail, Value.rename]
  | closure _ hcode hformals => rw [hcodes _ _ hcode, formals_eq hformals, Value.rename]
  | _ => rfl

theorem eq_of_closures_eq_nil (h : ρ.SameValue n v v') (hnone : v.closures = []) : v' = v := by
  have hself : ρ.SameValue n v v := of_closures_eq_nil hnone
  exact biUnique.2 h hself

/-- The closures of the first side have partners. -/
theorem closures (h : ρ.SameValue n v v') : ∀ id ∈ v.closures, id < n ∧ ∃ id', ρ.code id id' := by
  induction h with
  | pair _ _ ihhead ihtail =>
      rw [Value.closures, List.forall_mem_append]
      exact ⟨ihhead, ihtail⟩
  | closure hlt hcode _ =>
      rw [Value.closures, List.forall_mem_singleton]
      exact ⟨hlt, _, hcode⟩
  | _ => exact List.forall_mem_nil _

end SameValue


/-! ## Stores that are the same -/

/-- Two frames that bind the same under corresponding names, inside frames that are older and
correspond. -/
structure SameFrame (ρ : Correspondence) (n : Nat) (id id' : FrameId) (f f' : Frame) : Prop where
  bound : ∀ a a', ρ.Name a a' → Option.Rel (ρ.SameValue n) (f.get? a) (f'.get? a')
  outer : Option.Rel (fun o o' => (o < id ∧ o' < id') ∧ ρ.frame o o') f.outer f'.outer

/-- Two codes that were made in corresponding frames, among the first `n`, from the same body. -/
structure SameCode (ρ : Correspondence) (n : Nat) (c c' : Code) : Prop where
  lt : c.frame < n
  frame : ρ.frame c.frame c'.frame
  covered : ∀ form ∈ c.body, ρ.Covers form
  body : c'.body = c.body.map (Form.rename ρ.apply)

/-- Two stores in which corresponding frames and codes are the same, and in which those that are
made next will correspond as well. -/
structure SameStore (ρ : Correspondence) (s s' : Store) : Prop where
  nextFrame : ∀ k, ρ.frame (s.frames.size + k) (s'.frames.size + k)
  nextCode : ∀ k, ρ.code (s.codes.size + k) (s'.codes.size + k)
  frames : ∀ {id id'}, ρ.frame id id' → id < s.frames.size →
    ∃ f f', s.frames[id]? = some f ∧ s'.frames[id']? = some f' ∧
      ρ.SameFrame s.codes.size id id' f f'
  codes : ∀ {id id'}, ρ.code id id' → id < s.codes.size →
    ∃ c c', s.codes[id]? = some c ∧ s'.codes[id']? = some c' ∧ ρ.SameCode s.frames.size c c'

end Correspondence

/-- A frame that is there, and the one that stands for it. -/
structure Correspondence.SameId (ρ : Correspondence) (s : Store) (id id' : FrameId) : Prop where
  lt : id < s.frames.size
  frame : ρ.frame id id'

/-- A later store: no frame is lost, and no code is lost or changed. -/
structure Store.Extends (s t : Store) : Prop where
  frames : s.frames.size ≤ t.frames.size
  size : s.codes.size ≤ t.codes.size
  codes : ∀ (id : Nat) (c : Code), s.codes[id]? = some c → t.codes[id]? = some c

namespace Store

instance : IsPreorder Store Extends where
  refl _ := ⟨Nat.le_refl _, Nat.le_refl _, fun _ _ h => h⟩
  trans _ _ _ hst htu :=
    ⟨hst.frames.trans htu.frames, hst.size.trans htu.size,
      fun id c h => htu.codes id c (hst.codes id c h)⟩

theorem extends_newFrame (s : Store) (bindings : List (String × Value)) (outer : Option FrameId) :
    s.Extends (s.newFrame bindings outer).2 where
  frames := by simp [newFrame]
  size := Nat.le_refl _
  codes _ _ h := h

theorem extends_newClosure (s : Store) (formals : List String) (code : Code) :
    s.Extends (s.newClosure formals code).2 where
  frames := Nat.le_refl _
  size := by simp [newClosure]
  codes id c h := by
    have hlt : id < s.codes.size := (Array.getElem?_eq_some_iff.mp h).1
    simp only [newClosure]
    rw [Array.getElem?_push_lt hlt, ← h, Array.getElem?_eq_getElem hlt]

theorem extends_define (s : Store) (id : FrameId) (name : String) (v : Value) :
    s.Extends (s.define id name v) where
  frames := by simp [define]
  size := Nat.le_refl _
  codes _ _ h := h

end Store

namespace Correspondence

variable {ρ : Correspondence} {n m : Nat} {s s' t : Store} {id id' : FrameId} {f f' : Frame}
  {v v' : Value}

theorem SameId.mono (h : ρ.SameId s id id') (hext : s.Extends t) : ρ.SameId t id id' :=
  ⟨Nat.lt_of_lt_of_le h.lt hext.frames, h.frame⟩

theorem rel_mono {r r' : α → β → Prop} (h : ∀ a b, r a b → r' a b) {x : Option α} {y : Option β}
    (hxy : Option.Rel r x y) : Option.Rel r' x y := by
  cases hxy with
  | some hab => exact .some (h _ _ hab)
  | none => exact .none

theorem rel_or {r : α → β → Prop} {x z : Option α} {y w : Option β} (hxy : Option.Rel r x y)
    (hzw : Option.Rel r z w) : Option.Rel r (x.or z) (y.or w) := by
  cases hxy with
  | some hab => exact .some hab
  | none => exact hzw

theorem SameFrame.mono (hle : n ≤ m) (h : ρ.SameFrame n id id' f f') :
    ρ.SameFrame m id id' f f' :=
  { h with bound := fun a a' hname => rel_mono (fun _ _ => .mono hle) (h.bound a a' hname) }

theorem SameFrame.define (h : ρ.SameFrame n id id' f f') {a a' : String} (hname : ρ.Name a a')
    (hv : ρ.SameValue n v v') : ρ.SameFrame n id id' (f.define a v) (f'.define a' v') where
  bound b b' hb := by
    have hiff : b = a ↔ b' = a' := Relator.rel_eq Renaming.name_biUnique hb hname
    rw [Frame.get?_define, Frame.get?_define]
    by_cases heq : b = a
    · rw [if_pos heq, if_pos (hiff.mp heq)]
      exact .some hv
    · rw [if_neg heq, if_neg (mt hiff.mpr heq)]
      exact h.bound b b' hb
  outer := h.outer

theorem SameCode.mono (hle : n ≤ m) {c c' : Code} (h : ρ.SameCode n c c') : ρ.SameCode m c c' :=
  { h with lt := Nat.lt_of_lt_of_le h.lt hle }

/-- Arguments are bound to corresponding parameters. -/
theorem bound_zip {formals formals' : List String} {args args' : List Value}
    (hformals : List.Forall₂ ρ.Name formals formals')
    (hargs : List.Forall₂ (ρ.SameValue n) args args') {a a' : String} (ha : ρ.Name a a') :
    Option.Rel (ρ.SameValue n) ((formals.zip args).lookup a) ((formals'.zip args').lookup a') := by
  induction hformals generalizing args args' with
  | nil => exact .none
  | @cons b b' formals formals' hb _ ih =>
      cases hargs with
      | nil => exact .none
      | @cons v v' args args' hv hargs =>
          have hiff : a = b ↔ a' = b' := Relator.rel_eq Renaming.name_biUnique ha hb
          rw [List.zip_cons_cons, List.zip_cons_cons, Frame.lookup_cons_eq, Frame.lookup_cons_eq]
          by_cases heq : a = b
          · rw [if_pos heq, if_pos (hiff.mp heq)]
            exact .some hv
          · rw [if_neg heq, if_neg (mt hiff.mpr heq)]
            exact ih hargs

namespace SameStore

/-- A name is bound to the same on both sides. -/
theorem lookup? (h : ρ.SameStore s s') (hid : ρ.SameId s id id') {a a' : String}
    (ha : ρ.Name a a') :
    Option.Rel (ρ.SameValue s.codes.size) (s.lookup? id a) (s'.lookup? id' a') := by
  induction id using Nat.strongRecOn generalizing id' with
  | _ id ih =>
      obtain ⟨f, f', hf, hf', hsame⟩ := h.frames hid.frame hid.lt
      have hbound := hsame.bound a a' ha
      have houter := hsame.outer
      generalize ho : f.outer = outer at houter
      generalize ho' : f'.outer = outer' at houter
      cases houter with
      | none =>
          rw [Store.lookup?_root hf ho, Store.lookup?_root hf' ho']
          exact hbound
      | some hframes =>
          obtain ⟨⟨hlt, hlt'⟩, hframe⟩ := hframes
          rw [Store.lookup?_inner hf ho hlt, Store.lookup?_inner hf' ho' hlt']
          exact rel_or hbound (ih _ hlt ⟨Nat.lt_trans hlt hid.lt, hframe⟩)

/-- The count of the primitives has no part in it. -/
theorem withPrimitives (h : ρ.SameStore s s') (k k' : Nat) :
    ρ.SameStore { s with primitives := k } { s' with primitives := k' } :=
  ⟨h.nextFrame, h.nextCode, h.frames, h.codes⟩

/-- The frames that are made next correspond and are the same. -/
theorem newFrame (h : ρ.SameStore s s') {outer outer' : Option FrameId}
    (houter : Option.Rel (ρ.SameId s) outer outer') {bindings bindings' : List (String × Value)}
    (hbound : ∀ a a', ρ.Name a a' →
      Option.Rel (ρ.SameValue s.codes.size) (bindings.lookup a) (bindings'.lookup a')) :
    ρ.SameStore (s.newFrame bindings outer).2 (s'.newFrame bindings' outer').2 where
  nextFrame k := by
    have hnext := h.nextFrame (k + 1)
    simp only [Store.newFrame, Array.size_push]
    rwa [Nat.add_right_comm, Nat.add_right_comm s'.frames.size]
  nextCode := h.nextCode
  frames {id id'} hframe hlt := by
    have hsize : ρ.frame s.frames.size s'.frames.size := h.nextFrame 0
    rw [Store.newFrame, Array.size_push] at hlt
    rcases Nat.lt_succ_iff_lt_or_eq.mp hlt with hold | rfl
    · obtain ⟨f, f', hf, hf', hsame⟩ := h.frames hframe hold
      have hold' : id' < s'.frames.size := (Array.getElem?_eq_some_iff.mp hf').1
      refine ⟨f, f', ?_, ?_, hsame⟩
      · exact Store.keeps_newFrame s bindings outer id f hf
      · exact Store.keeps_newFrame s' bindings' outer' id' f' hf'
    · obtain rfl : id' = s'.frames.size := ρ.frame_unique.2 hframe hsize
      refine ⟨_, _, Array.getElem?_push_size, Array.getElem?_push_size, hbound, ?_⟩
      refine rel_mono (fun o o' ho => ?_) houter
      obtain ⟨f, f', hf, hf', -⟩ := h.frames ho.frame ho.lt
      exact ⟨⟨ho.lt, (Array.getElem?_eq_some_iff.mp hf').1⟩, ho.frame⟩
  codes hcode hlt := by
    obtain ⟨c, c', hc, hc', hsame⟩ := h.codes hcode hlt
    exact ⟨c, c', hc, hc', hsame.mono (s.extends_newFrame bindings outer).frames⟩

theorem sameId_newFrame (h : ρ.SameStore s s') (bindings : List (String × Value))
    (outer : Option FrameId) :
    ρ.SameId (s.newFrame bindings outer).2 s.frames.size s'.frames.size :=
  ⟨by simp [Store.newFrame], h.nextFrame 0⟩

/-- The closures that are made next correspond and are the same. -/
theorem newClosure (h : ρ.SameStore s s') {formals formals' : List String}
    (hformals : List.Forall₂ ρ.Name formals formals') {c c' : Code}
    (hc : ρ.SameCode s.frames.size c c') :
    ρ.SameStore (s.newClosure formals c).2 (s'.newClosure formals' c').2 ∧
      ρ.SameValue (s.newClosure formals c).2.codes.size (s.newClosure formals c).1
        (s'.newClosure formals' c').1 := by
  have hsize : ρ.code s.codes.size s'.codes.size := h.nextCode 0
  have hext := s.extends_newClosure formals c
  constructor
  · refine ⟨h.nextFrame, fun k => ?_, fun {id id'} hframe hlt => ?_, fun {id id'} hcode hlt => ?_⟩
    · have hnext := h.nextCode (k + 1)
      simp only [Store.newClosure, Array.size_push]
      rwa [Nat.add_right_comm, Nat.add_right_comm s'.codes.size]
    · obtain ⟨f, f', hf, hf', hsame⟩ := h.frames hframe hlt
      exact ⟨f, f', hf, hf', hsame.mono hext.size⟩
    · rw [Store.newClosure, Array.size_push] at hlt
      rcases Nat.lt_succ_iff_lt_or_eq.mp hlt with hold | rfl
      · obtain ⟨d, d', hd, hd', hsame⟩ := h.codes hcode hold
        exact ⟨d, d', hext.codes id d hd, (s'.extends_newClosure formals' c').codes id' d' hd', hsame⟩
      · obtain rfl : id' = s'.codes.size := ρ.code_unique.2 hcode hsize
        exact ⟨c, c', Array.getElem?_push_size, Array.getElem?_push_size, hc⟩
  · exact .closure (by simp [Store.newClosure]) hsize hformals

/-- Corresponding names are defined in corresponding frames. -/
theorem define (h : ρ.SameStore s s') (hid : ρ.SameId s id id') {a a' : String}
    (ha : ρ.Name a a') (hv : ρ.SameValue s.codes.size v v') :
    ρ.SameStore (s.define id a v) (s'.define id' a' v') where
  nextFrame := by simpa [Store.define] using h.nextFrame
  nextCode := h.nextCode
  frames {j j'} hframe hlt := by
    rw [Store.define, Array.size_modify] at hlt
    obtain ⟨f, f', hf, hf', hsame⟩ := h.frames hframe hlt
    have hiff : id = j ↔ id' = j' := Relator.rel_eq ρ.frame_unique hid.frame hframe
    by_cases heq : id = j
    · obtain rfl := heq
      obtain rfl := hiff.mp rfl
      exact ⟨_, _, Store.getElem?_define hf a v, Store.getElem?_define hf' a' v', hsame.define ha hv⟩
    · refine ⟨f, f', ?_, ?_, hsame⟩
      · rw [Store.define, Array.getElem?_modify, if_neg heq, hf]
      · rw [Store.define, Array.getElem?_modify, if_neg (mt hiff.mpr heq), hf']
  codes hcode hlt := by
    obtain ⟨c, c', hc, hc', hsame⟩ := h.codes hcode hlt
    exact ⟨c, c', hc, hc', hsame.mono (s.extends_define id a v).frames⟩

end SameStore

end Correspondence

end TableLisp

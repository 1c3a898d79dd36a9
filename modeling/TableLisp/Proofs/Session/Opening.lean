import TableLisp.Proofs.Session.Limit
import TableLisp.Proofs.Store.Lookup

/-!
# Opened sessions

A session that is opened on a store adds one frame to it, its global one, and nothing else
(`Session.newSession_defineAll`). The frame lies in no other, and binds the primitives and then the
names that the session is opened with, of which the last one counts (`Frame.get?_defineAll`).
-/

namespace TableLisp

namespace Frame

/-! ## Several definitions -/

/-- Defines names in a frame, in order. -/
def defineAll (f : Frame) (bindings : List (String × Value)) : Frame :=
  bindings.foldl (fun f binding => f.define binding.1 binding.2) f

theorem defineAll_append (f : Frame) (bindings more : List (String × Value)) :
    f.defineAll (bindings ++ more) = (f.defineAll bindings).defineAll more :=
  List.foldl_append

theorem outer_defineAll : ∀ (bindings : List (String × Value)) (f : Frame),
    (f.defineAll bindings).outer = f.outer
  | [], _ => rfl
  | (name, v) :: rest, f => outer_defineAll rest (f.define name v)

/-- The last definition of a name counts. -/
theorem get?_defineAll (key : String) : ∀ (bindings : List (String × Value)) (f : Frame),
    (f.defineAll bindings).get? key = (bindings.reverse.lookup key).or (f.get? key)
  | [], _ => rfl
  | (name, v) :: rest, f => by
      have hrest : (f.defineAll ((name, v) :: rest)) = (f.define name v).defineAll rest := rfl
      rw [hrest, get?_defineAll key rest, get?_define, List.reverse_cons, List.lookup_append,
        lookup_cons_eq, Option.or_assoc]
      split <;> rfl

end Frame

namespace Store

/-! ## A store with one more frame -/

/-- Adds a frame. -/
def withFrame (s : Store) (f : Frame) : Store :=
  { s with frames := s.frames.push f }

theorem define_withFrame (s : Store) (f : Frame) (name : String) (v : Value) :
    (s.withFrame f).define s.frames.size name v = s.withFrame (f.define name v) := by
  have hframes : (s.frames.push f).modify s.frames.size (·.define name v) =
      s.frames.push (f.define name v) := by
    refine Array.ext_getElem? fun i => ?_
    rw [Array.getElem?_modify, Array.getElem?_push, Array.getElem?_push]
    by_cases hi : i = s.frames.size
    · rw [if_pos hi.symm, if_pos hi, if_pos hi]
      rfl
    · rw [if_neg (Ne.symm hi), if_neg hi, if_neg hi]
  rw [withFrame, define, hframes]
  rfl

/-- What the definition of some primitives binds, the first of which has the number `n`. -/
def primitiveBindings (n : Nat) (ops : List Builtin) : List (String × Value) :=
  (ops.zipIdx n).map fun (op, id) => (op.name, .primitive id op)

/-- What the global frame of a new session binds. -/
def globalBindings (s : Store) : List (String × Value) :=
  primitiveBindings s.primitives Builtin.all

/-- The store that the definition of some primitives leaves. -/
theorem foldl_definePrimitive : ∀ (ops : List Builtin) (s : Store) (f : Frame),
    ops.foldl (definePrimitive s.frames.size) (s.withFrame f) =
      { s with primitives := s.primitives + ops.length }.withFrame
        (f.defineAll (primitiveBindings s.primitives ops))
  | [], _, _ => rfl
  | op :: rest, s, f => by
      let t : Store := { s with primitives := s.primitives + 1 }
      have hfirst : definePrimitive s.frames.size (s.withFrame f) op =
          t.withFrame (f.define op.name (.primitive s.primitives op)) :=
        define_withFrame t f op.name (.primitive s.primitives op)
      have hcount : s.primitives + (op :: rest).length = t.primitives + rest.length := by
        simp only [t, List.length_cons]
        omega
      rw [List.foldl_cons, hfirst, foldl_definePrimitive rest t, hcount]
      rfl

theorem newGlobal_eq (s : Store) :
    s.newGlobal = (s.frames.size,
      { s with primitives := s.primitives + Builtin.all.length }.withFrame
        (Frame.defineAll ⟨[], none⟩ s.globalBindings)) :=
  congrArg (Prod.mk s.frames.size) (foldl_definePrimitive Builtin.all s ⟨[], none⟩)

/-- The global frame of a session that is opened with some names. -/
def globalFrame (s : Store) (bindings : List (String × Value)) : Frame :=
  Frame.defineAll ⟨[], none⟩ (s.globalBindings ++ bindings)

theorem outer_globalFrame (s : Store) (bindings : List (String × Value)) :
    (s.globalFrame bindings).outer = none :=
  Frame.outer_defineAll ..

theorem get?_globalFrame (s : Store) (bindings : List (String × Value)) (name : String) :
    (s.globalFrame bindings).get? name =
      (bindings.reverse.lookup name).or (s.globalBindings.reverse.lookup name) := by
  rw [globalFrame, Frame.get?_defineAll, List.reverse_append, List.lookup_append]
  exact Option.or_none

theorem mem_of_lookup {key : String} {v : Value} {bindings : List (String × Value)}
    (h : bindings.lookup key = some v) : (key, v) ∈ bindings := by
  obtain ⟨before, after, rfl, -⟩ := List.lookup_eq_some_iff.mp h
  exact List.mem_append_right before List.mem_cons_self

/-- What a global frame binds is a primitive or one of the values that were given. -/
theorem get?_globalFrame_eq_some {s : Store} {bindings : List (String × Value)} {name : String}
    {v : Value} (h : (s.globalFrame bindings).get? name = some v) :
    (name, v) ∈ bindings ∨ ∃ id op, v = .primitive id op := by
  rw [get?_globalFrame, Option.or_eq_some_iff] at h
  rcases h with h | ⟨-, h⟩
  · exact Or.inl (List.mem_reverse.mp (mem_of_lookup h))
  · obtain ⟨⟨op, id⟩, -, hop⟩ := List.mem_map.mp (List.mem_reverse.mp (mem_of_lookup h))
    exact Or.inr ⟨id, op, (congrArg Prod.snd hop).symm⟩

end Store

namespace Session

/-! ## The session -/

theorem defineAll_withFrame (s : Store) (g : Guard) : ∀ (bindings : List (String × Value))
    (f : Frame), (Session.mk ⟨s.withFrame f, g⟩ s.frames.size).defineAll bindings =
      ⟨⟨s.withFrame (f.defineAll bindings), g⟩, s.frames.size⟩
  | [], _ => rfl
  | (name, v) :: rest, f => by
      have hfirst : (Session.mk ⟨s.withFrame f, g⟩ s.frames.size).define name v =
          ⟨⟨s.withFrame (f.define name v), g⟩, s.frames.size⟩ := by
        rw [define, Store.define_withFrame]
      have hcons : (Session.mk ⟨s.withFrame f, g⟩ s.frames.size).defineAll ((name, v) :: rest) =
          ((Session.mk ⟨s.withFrame f, g⟩ s.frames.size).define name v).defineAll rest := rfl
      rw [hcons, hfirst, defineAll_withFrame s g rest]
      rfl

/-- A session is opened by adding its global frame. -/
theorem newSession_defineAll (s : State) (bindings : List (String × Value)) :
    s.newSession.defineAll bindings =
      ⟨⟨{ s.store with primitives := s.store.primitives + Builtin.all.length }.withFrame
          (s.store.globalFrame bindings), s.guard⟩, s.store.frames.size⟩ := by
  rw [State.newSession, Store.newGlobal_eq, Store.globalFrame, Frame.defineAll_append]
  exact defineAll_withFrame _ s.guard bindings _

theorem binds_openOn (store : Store) (limit : Int) (bindings : List (String × Value))
    (name : String) :
    (openOn store limit bindings).binds name = ((store.globalFrame bindings).get? name).isSome := by
  rw [openOn, newSession_defineAll, binds, Store.binds,
    Store.lookup?_root _ (store.outer_globalFrame bindings)]
  exact Array.getElem?_push_size

end Session

end TableLisp

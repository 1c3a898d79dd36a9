import TableLisp.Store

/-!
# Finding bindings

A name is looked up from a frame outward: a frame without an outer one answers for itself
(`Store.lookup?_root`), any other one asks further if it does not bind the name
(`Store.lookup?_inner`). The search goes to older frames, so it meets none twice
(`Store.nodup_scope`). The global frame of a new session is of the first kind and binds every
primitive (`Store.isGlobal_newGlobal`). It stays so while other names are defined in it and other
frames are made (`Store.IsGlobal`).
-/

namespace TableLisp

theorem Builtin.name_injective {op op' : Builtin} (h : op.name = op'.name) : op = op' := by
  revert h
  cases op <;> cases op' <;> decide

namespace Store

variable {s t : Store} {id outer : FrameId} {frame : Frame}

/-! ## Along the chain of frames -/

/-- The frame `outer` lies directly around the frame `id`. -/
def Around (s : Store) (id outer : FrameId) : Prop :=
  ∃ f, s.frames[id]? = some f ∧ f.outer = some outer

theorem scope_root (h : s.frames[id]? = some frame) (hroot : frame.outer = none) :
    s.scope id = [id] := by
  rw [scope, h]
  simp only [hroot]

theorem scope_inner (h : s.frames[id]? = some frame) (houter : frame.outer = some outer)
    (hlt : outer < id) : s.scope id = id :: s.scope outer := by
  rw [scope, h]
  simp only [houter, if_pos hlt]

/-- Seen from a frame that is there, this frame comes first. -/
theorem scope_eq_cons (h : s.frames[id]? = some frame) : ∃ outward, s.scope id = id :: outward := by
  rw [scope, h]
  dsimp only
  split
  · exact ⟨[], rfl⟩
  · split
    · exact ⟨_, rfl⟩
    · exact ⟨[], rfl⟩

theorem le_of_mem_scope {x : FrameId} (h : x ∈ s.scope id) : x ≤ id := by
  fun_induction scope s id with
  | case1 => cases h
  | case2 id | case4 id => exact Nat.le_of_eq (List.mem_singleton.mp h)
  | case3 id frame hframe outer houter hlt ih =>
      rcases List.mem_cons.mp h with rfl | h
      · exact Nat.le_refl _
      · exact Nat.le_trans (ih h) (Nat.le_of_lt hlt)

theorem nodup_scope (s : Store) (id : FrameId) : (s.scope id).Nodup := by
  fun_induction scope s id with
  | case1 => exact .nil
  | case2 id | case4 id => exact List.pairwise_singleton _ id
  | case3 id frame hframe outer houter hlt ih =>
      exact List.nodup_cons.mpr ⟨fun h => Nat.not_le.mpr hlt (le_of_mem_scope h), ih⟩

theorem get?_eq (h : s.frames[id]? = some frame) (name : String) :
    s.get? id name = frame.get? name := by
  rw [get?, h]
  rfl

/-- What can be found is found from a frame that is there. -/
theorem lt_of_lookup? {name : String} {v : Value} (h : s.lookup? id name = some v) :
    id < s.frames.size := by
  refine Nat.lt_of_not_le fun hsize => ?_
  have hnone : s.frames[id]? = none := Array.getElem?_eq_none hsize
  rw [lookup?, scope, hnone] at h
  cases h

theorem lookup?_root (h : s.frames[id]? = some frame) (hroot : frame.outer = none)
    (name : String) : s.lookup? id name = frame.get? name := by
  rw [lookup?, scope_root h hroot, ← get?_eq h]
  simp

theorem lookup?_inner (h : s.frames[id]? = some frame) (houter : frame.outer = some outer)
    (hlt : outer < id) (name : String) :
    s.lookup? id name = (frame.get? name).or (s.lookup? outer name) := by
  rw [lookup?, scope_inner h houter hlt, List.findSome?_cons, get?_eq h]
  cases frame.get? name <;> rfl

/-- In a call a name is an argument, or what it is in the frame that the code was made in. -/
theorem lookup?_newFrame (hlt : outer < s.frames.size) (bindings : List (String × Value))
    (name : String) : (s.newFrame bindings (some outer)).2.lookup? s.frames.size name =
      (bindings.lookup name).or ((s.newFrame bindings (some outer)).2.lookup? outer name) := by
  have hnew : (s.newFrame bindings (some outer)).2.frames[s.frames.size]? =
      some ⟨bindings, some outer⟩ := by
    rw [newFrame, Array.getElem?_push_size]
  exact lookup?_inner hnew rfl hlt name

/-! ## After a definition -/

theorem getElem?_define (h : s.frames[id]? = some frame) (name : String) (v : Value) :
    (s.define id name v).frames[id]? = some (frame.define name v) := by
  rw [define, Array.getElem?_modify, if_pos rfl, h]
  rfl

/-! ## Frames with the primitives -/

/-- A frame without an outer one that binds every primitive under its name. -/
def IsGlobal (s : Store) (id : FrameId) : Prop :=
  ∃ frame : Frame, s.frames[id]? = some frame ∧ frame.outer = none ∧
    ∀ op : Builtin, ∃ n, frame.get? op.name = some (.primitive n op)

namespace IsGlobal

theorem lookup? (h : s.IsGlobal id) (op : Builtin) :
    ∃ n, s.lookup? id op.name = some (.primitive n op) := by
  obtain ⟨frame, hframe, hroot, hbound⟩ := h
  obtain ⟨n, hop⟩ := hbound op
  exact ⟨n, by rw [lookup?_root hframe hroot, hop]⟩

theorem of_frames_eq (h : s.IsGlobal id) (hframes : t.frames = s.frames) : t.IsGlobal id := by
  rw [IsGlobal, hframes]
  exact h

theorem newFrame (h : s.IsGlobal id) (bindings : List (String × Value))
    (around : Option FrameId) : (s.newFrame bindings around).2.IsGlobal id := by
  obtain ⟨frame, hframe, hrest⟩ := h
  obtain ⟨hlt, -⟩ := Array.getElem?_eq_some_iff.mp hframe
  refine ⟨frame, ?_, hrest⟩
  rw [Store.newFrame, Array.getElem?_push_lt hlt]
  exact hframe ▸ (Array.getElem?_eq_getElem hlt).symm

theorem lookup?_newFrame (h : s.IsGlobal id) (bindings : List (String × Value)) (name : String) :
    (s.newFrame bindings (some id)).2.lookup? s.frames.size name =
      (bindings.lookup name).or ((s.newFrame bindings (some id)).2.lookup? id name) := by
  obtain ⟨frame, hframe, -⟩ := h
  exact Store.lookup?_newFrame (Array.getElem?_eq_some_iff.mp hframe).1 bindings name

theorem define (h : s.IsGlobal id) {name : String} (hname : Builtin.ofName? name = none)
    (v : Value) : (s.define id name v).IsGlobal id := by
  obtain ⟨frame, hframe, hroot, hbound⟩ := h
  refine ⟨_, getElem?_define hframe name v, hroot, fun op => ?_⟩
  have hne : op.name ≠ name := by
    have hnone := List.find?_eq_none.mp hname op (Builtin.mem_all op)
    simpa using hnone
  rw [Frame.get?_define, if_neg hne]
  exact hbound op

theorem lookup?_define (h : s.IsGlobal id) (name : String) (v : Value) :
    (s.define id name v).lookup? id name = some v := by
  obtain ⟨frame, hframe, hroot, -⟩ := h
  rw [lookup?_root (getElem?_define hframe name v) hroot, Frame.get?_define, if_pos rfl]

end IsGlobal

/-! ## The frame of a new session -/

/-- Makes a primitive and defines it. -/
def definePrimitive (id : FrameId) (s : Store) (op : Builtin) : Store :=
  (s.newPrimitive op).2.define id op.name (s.newPrimitive op).1

/-- Primitives are found after they have been defined; a later one takes no name from another. -/
theorem define_primitives : ∀ (ops : List Builtin) {s : Store} {frame : Frame},
    s.frames[id]? = some frame →
    ∃ frame' : Frame, (ops.foldl (definePrimitive id) s).frames[id]? = some frame' ∧
      frame'.outer = frame.outer ∧
      (∀ op ∈ ops, ∃ n, frame'.get? op.name = some (.primitive n op)) ∧
      ∀ op ∉ ops, frame'.get? op.name = frame.get? op.name
  | [], s, frame, h => ⟨frame, h, rfl, by simp, fun _ _ => rfl⟩
  | op :: rest, s, frame, h => by
      have hfirst : (definePrimitive id s op).frames[id]? =
          some (frame.define op.name (.primitive s.primitives op)) := getElem?_define h _ _
      obtain ⟨frame', hframe', houter, hbound, hother⟩ := define_primitives rest hfirst
      refine ⟨frame', hframe', houter, fun op' hop' => ?_, fun op' hop' => ?_⟩
      · by_cases hrest : op' ∈ rest
        · exact hbound op' hrest
        · obtain rfl : op' = op := (List.mem_cons.mp hop').resolve_right hrest
          exact ⟨s.primitives, by rw [hother op' hrest, Frame.get?_define, if_pos rfl]⟩
      · obtain ⟨hne, hrest⟩ := not_or.mp (mt List.mem_cons.mpr hop')
        have hname : op'.name ≠ op.name := fun heq => hne (Builtin.name_injective heq)
        rw [hother op' hrest, Frame.get?_define, if_neg hname]

theorem isGlobal_newGlobal (s : Store) : s.newGlobal.2.IsGlobal s.newGlobal.1 := by
  have hempty : (s.newFrame [] none).2.frames[s.frames.size]? = some ⟨[], none⟩ := by
    rw [newFrame, Array.getElem?_push_size]
  obtain ⟨frame, hframe, hroot, hbound, -⟩ := define_primitives Builtin.all hempty
  exact ⟨frame, hframe, hroot, fun op => hbound op (Builtin.mem_all op)⟩

end Store

end TableLisp

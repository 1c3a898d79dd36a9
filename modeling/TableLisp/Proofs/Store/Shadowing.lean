import TableLisp.Eval.Basic
import TableLisp.Proofs.Store.Lookup
import TableLisp.Proofs.Text.Numeral

/-!
# Shadowing

Frames are made one after the other, each inside one that is there already or inside none
(`Store.IsForest`). So the frames that the store searches for a name are all that lie outward
(`Store.IsForest.outward_iff`), and what it finds is the nearest binding (`Store.Nearest`).

A definition reaches a frame if the frame that it is made in lies outward from there and comes before
every other one that binds the name (`Store.Reaches`). Then it is the nearest binding of its name
(`Store.IsForest.nearest_define`), whether the name was bound there before or not. All other names,
and the same name from all other frames, have the nearest bindings that they had
(`Store.IsForest.nearest_define_iff`).
-/

namespace TableLisp

namespace Store

variable {s t : Store} {id frame : FrameId} {name key : String} {v w : Value} {n : Nat}

/-! ## Forests -/

/-- A store whose frames were made one after the other, each inside one that was there or inside
none, while names were defined in them. It does not matter what else is in the store. -/
inductive IsForest : Store → Prop
  | empty : IsForest .empty
  | newFrame {s : Store} (h : IsForest s) (bindings : List (String × Value))
      {outer : Option FrameId} (houter : ∀ o, outer = some o → o < s.frames.size) :
      IsForest (s.newFrame bindings outer).2
  | define {s : Store} (h : IsForest s) (frame : FrameId) (name : String) (v : Value) :
      IsForest (s.define frame name v)
  | same {s t : Store} (h : IsForest s) (hframes : t.frames = s.frames) : IsForest t

theorem getElem?_frames_define (s : Store) (frame : FrameId) (name : String) (v : Value)
    (id : FrameId) : (s.define frame name v).frames[id]? =
      s.frames[id]?.map fun f => if frame = id then f.define name v else f := by
  rw [define, Array.getElem?_modify]
  split <;> simp

theorem outer_define (f : Frame) (p : Prop) [Decidable p] (name : String) (v : Value) :
    (if p then f.define name v else f).outer = f.outer := by
  split <;> rfl

/-- A definition leaves all frames where they are. -/
theorem around_define {outer : FrameId} :
    (s.define frame name v).Around id outer ↔ s.Around id outer := by
  constructor
  · rintro ⟨g, hg, hsome⟩
    rw [getElem?_frames_define, Option.map_eq_some_iff] at hg
    obtain ⟨f, hf, rfl⟩ := hg
    rw [outer_define] at hsome
    exact ⟨f, hf, hsome⟩
  · rintro ⟨f, hf, hsome⟩
    refine ⟨_, by rw [getElem?_frames_define, hf, Option.map_some], ?_⟩
    rwa [outer_define]

theorem scope_define (s : Store) (frame : FrameId) (name : String) (v : Value) (id : FrameId) :
    (s.define frame name v).scope id = s.scope id := by
  fun_induction scope s id with
  | case1 id hf => rw [scope, getElem?_frames_define, hf, Option.map_none]
  | case2 id f hf houter =>
      rw [scope, getElem?_frames_define, hf]
      simp only [Option.map_some, outer_define, houter]
  | case3 id f hf outer houter hlt ih =>
      rw [scope, getElem?_frames_define, hf]
      simp only [Option.map_some, outer_define, houter, if_pos hlt, ih]
  | case4 id f hf outer houter hlt =>
      rw [scope, getElem?_frames_define, hf]
      simp only [Option.map_some, outer_define, houter, if_neg hlt]

theorem IsForest.older (h : s.IsForest) {id outer : FrameId} (houter : s.Around id outer) :
    outer < id := by
  induction h with
  | empty =>
      obtain ⟨f, hf, -⟩ := houter
      simp [Store.empty] at hf
  | newFrame h bindings hthere ih =>
      obtain ⟨f, hf, hsome⟩ := houter
      rw [Store.newFrame, Array.getElem?_push] at hf
      split at hf
      · next hid =>
          cases hf
          exact hid ▸ hthere outer hsome
      · exact ih ⟨f, hf, hsome⟩
  | define h frame name v ih => exact ih (around_define.mp houter)
  | same h hframes ih => exact ih (by rwa [Around, hframes] at houter)

/-! ## Frames outward -/

/-- The frame that lies so many frames outward from the frame `id`. -/
inductive Outward (s : Store) : FrameId → Nat → FrameId → Prop
  | here {id : FrameId} {f : Frame} (hf : s.frames[id]? = some f) : Outward s id 0 id
  | further {id outer frame : FrameId} {n : Nat} (houter : s.Around id outer)
      (h : Outward s outer n frame) : Outward s id (n + 1) frame

theorem Outward.exists_frame (h : s.Outward id n frame) : ∃ f, s.frames[frame]? = some f := by
  induction h with
  | here hf => exact ⟨_, hf⟩
  | further _ _ ih => exact ih

/-- In a forest the search for a name is never cut short. -/
theorem IsForest.outward_iff (h : s.IsForest) :
    s.Outward id n frame ↔ (s.scope id)[n]? = some frame := by
  constructor
  · intro hout
    induction hout with
    | here hf =>
        obtain ⟨outward, hscope⟩ := scope_eq_cons hf
        rw [hscope, List.getElem?_cons_zero]
    | further houter _ ih =>
        have hlt := h.older houter
        obtain ⟨f, hf, hsome⟩ := houter
        rw [scope_inner hf hsome hlt, List.getElem?_cons_succ, ih]
  · fun_induction scope s id generalizing n with
    | case1 id hf => simp
    | case2 id f hf houter =>
        intro hframe
        obtain ⟨rfl, rfl⟩ : n = 0 ∧ id = frame := by cases n <;> simp_all
        exact .here hf
    | case3 id f hf outer houter hlt ih =>
        intro hframe
        cases n with
        | zero =>
            obtain rfl := Option.some.inj hframe
            exact .here hf
        | succ n => exact .further ⟨f, hf, houter⟩ (ih hframe)
    | case4 id f hf outer houter hlt => exact absurd (h.older ⟨f, hf, houter⟩) hlt

theorem IsForest.outward_define_iff (h : s.IsForest) {x : FrameId} :
    (s.define frame name v).Outward id n x ↔ s.Outward id n x := by
  rw [(h.define frame name v).outward_iff, h.outward_iff, scope_define]

/-- No frame is met twice. -/
theorem IsForest.outward_inj (h : s.IsForest) {m : Nat} (hm : s.Outward id m frame)
    (hn : s.Outward id n frame) : m = n := by
  rw [h.outward_iff] at hm hn
  have hlt : m < (s.scope id).length := (List.getElem?_eq_some_iff.mp hm).1
  exact (List.getElem?_inj hlt (s.nodup_scope id)).mp (hm.trans hn.symm)

/-! ## The nearest binding -/

/-- Seen from the frame `id`, the frame `frame` lies so many frames outward and comes before every
other one that binds the name. -/
structure Reaches (s : Store) (id : FrameId) (name : String) (n : Nat) (frame : FrameId) :
    Prop where
  outward : s.Outward id n frame
  unshadowed : ∀ m nearer, m < n → s.Outward id m nearer → s.get? nearer name = none

/-- Seen from the frame `id`, the nearest frame that binds the name lies so many frames outward and
binds it to the value `v`. -/
def Nearest (s : Store) (id : FrameId) (name : String) (n : Nat) (v : Value) : Prop :=
  ∃ frame, s.Reaches id name n frame ∧ s.get? frame name = some v

namespace IsForest

variable (h : s.IsForest)

include h

theorem lookup?_eq_some_iff : s.lookup? id name = some v ↔ ∃ n, s.Nearest id name n v := by
  rw [lookup?, List.findSome?_eq_some_iff]
  constructor
  · rintro ⟨nearer, frame, further, hscope, hv, hnone⟩
    refine ⟨nearer.length, frame, ⟨?_, fun m x hm hx => ?_⟩, hv⟩
    · rw [h.outward_iff, hscope, List.getElem?_append_right (Nat.le_refl _), Nat.sub_self,
        List.getElem?_cons_zero]
    · rw [h.outward_iff, hscope, List.getElem?_append_left hm] at hx
      exact hnone x (List.mem_of_getElem? hx)
  · rintro ⟨n, frame, ⟨hout, hunshadowed⟩, hv⟩
    rw [h.outward_iff] at hout
    obtain ⟨hlt, hframe⟩ := List.getElem?_eq_some_iff.mp hout
    refine ⟨(s.scope id).take n, frame, (s.scope id).drop (n + 1), ?_, hv, fun x hx => ?_⟩
    · rw [← hframe, List.getElem_cons_drop, List.take_append_drop]
    · obtain ⟨m, hm⟩ := List.mem_iff_getElem?.mp hx
      rw [List.getElem?_take] at hm
      split at hm
      · next hmn => exact hunshadowed m x hmn (h.outward_iff.mpr hm)
      · cases hm

theorem hops?_eq_some_iff : s.hops? id name = some n ↔ ∃ v, s.Nearest id name n v := by
  rw [hops?, List.findIdx?_eq_some_iff_getElem]
  constructor
  · rintro ⟨hlt, hbound, hfirst⟩
    obtain ⟨v, hv⟩ := Option.isSome_iff_exists.mp hbound
    have hout : s.Outward id n (s.scope id)[n] :=
      h.outward_iff.mpr (List.getElem?_eq_getElem hlt)
    refine ⟨v, _, ⟨hout, fun m x hm hx => ?_⟩, hv⟩
    obtain ⟨hlt', rfl⟩ := List.getElem?_eq_some_iff.mp (h.outward_iff.mp hx)
    simpa using hfirst m hm
  · rintro ⟨v, frame, ⟨hout, hunshadowed⟩, hv⟩
    obtain ⟨hlt, rfl⟩ := List.getElem?_eq_some_iff.mp (h.outward_iff.mp hout)
    refine ⟨hlt, by rw [hv, Option.isSome_some], fun m hm => ?_⟩
    have hx : s.Outward id m (s.scope id)[m] :=
      h.outward_iff.mpr (List.getElem?_eq_getElem (Nat.lt_trans hm hlt))
    rw [hunshadowed m _ hm hx, Option.isSome_none]
    exact Bool.false_ne_true

end IsForest

/-- What a name comes to from a frame: its value, whether it is bound, and how far away. -/
def view (s : Store) (id : FrameId) (name : String) : Option Value × Bool × Option Nat :=
  (s.lookup? id name, s.binds id name, s.hops? id name)

theorem IsForest.view_of_nearest (h : s.IsForest) (hnearest : s.Nearest id name n v) :
    s.view id name = (some v, true, some n) := by
  have hlookup : s.lookup? id name = some v := h.lookup?_eq_some_iff.mpr ⟨n, hnearest⟩
  have hhops : s.hops? id name = some n := h.hops?_eq_some_iff.mpr ⟨v, hnearest⟩
  rw [view, binds, hlookup, hhops, Option.isSome_some]

/-- The nearest binding is all that can be seen. -/
theorem view_congr (hs : s.IsForest) (ht : t.IsForest)
    (h : ∀ n v, t.Nearest id name n v ↔ s.Nearest id name n v) :
    t.view id name = s.view id name := by
  have hlookup : t.lookup? id name = s.lookup? id name := Option.ext fun v => by
    simp only [ht.lookup?_eq_some_iff, hs.lookup?_eq_some_iff, h]
  have hhops : t.hops? id name = s.hops? id name := Option.ext fun n => by
    simp only [ht.hops?_eq_some_iff, hs.hops?_eq_some_iff, h]
  rw [view, view, binds, binds, hlookup, hhops]

/-! ## What a definition reaches -/

theorem get?_define_self {f : Frame} (hf : s.frames[frame]? = some f) (name : String) (v : Value) :
    (s.define frame name v).get? frame name = some v := by
  rw [get?_eq (getElem?_define hf name v), Frame.get?_define, if_pos rfl]

theorem get?_define_of_ne {x : FrameId} (h : ¬ (x = frame ∧ key = name)) (v : Value) :
    (s.define frame name v).get? x key = s.get? x key := by
  rw [get?, get?, getElem?_frames_define]
  cases s.frames[x]? with
  | none => rfl
  | some f =>
      simp only [Option.map_some, Option.bind_some]
      split
      · next heq => rw [Frame.get?_define, if_neg fun hkey => h ⟨heq.symm, hkey⟩]
      · rfl

/-- A definition takes no binding away. -/
theorem get?_of_define_eq_none {x : FrameId} (h : (s.define frame name v).get? x key = none) :
    s.get? x key = none := by
  by_cases hdefined : x = frame ∧ key = name
  · obtain ⟨rfl, rfl⟩ := hdefined
    cases hf : s.frames[x]? with
    | none => rw [get?, hf, Option.bind_none]
    | some f =>
        rw [get?_define_self hf] at h
        cases h
  · rwa [get?_define_of_ne hdefined] at h

namespace IsForest

variable (h : s.IsForest)

include h

theorem nearest_define (hreaches : s.Reaches id name n frame) (v : Value) :
    (s.define frame name v).Nearest id name n v := by
  obtain ⟨f, hf⟩ := hreaches.outward.exists_frame
  refine ⟨frame, ⟨h.outward_define_iff.mpr hreaches.outward, fun m nearer hm hnearer => ?_⟩,
    get?_define_self hf name v⟩
  have hout := h.outward_define_iff.mp hnearer
  have hne : nearer ≠ frame := by
    rintro rfl
    exact Nat.ne_of_lt hm (h.outward_inj hout hreaches.outward)
  rw [get?_define_of_ne fun heq => hne heq.1]
  exact hreaches.unshadowed m nearer hm hout

/-- What a definition does not reach has the nearest bindings that it had. -/
theorem nearest_define_iff (hmissed : key = name → ∀ n, ¬ s.Reaches id name n frame) :
    (s.define frame name v).Nearest id key n w ↔ s.Nearest id key n w := by
  have hsame {n : Nat} (hunbound : ∀ m x, m < n → s.Outward id m x → s.get? x key = none)
      {m : Nat} {x : FrameId} (hm : m ≤ n) (hx : s.Outward id m x) :
      (s.define frame name v).get? x key = s.get? x key := by
    refine get?_define_of_ne ?_ v
    rintro ⟨rfl, rfl⟩
    exact hmissed rfl m ⟨hx, fun k y hk => hunbound k y (Nat.lt_of_lt_of_le hk hm)⟩
  constructor
  · rintro ⟨x, ⟨hx, hunbound⟩, hv⟩
    have hx := h.outward_define_iff.mp hx
    have hunbound : ∀ m y, m < n → s.Outward id m y → s.get? y key = none := fun m y hm hy =>
      get?_of_define_eq_none (hunbound m y hm (h.outward_define_iff.mpr hy))
    exact ⟨x, ⟨hx, hunbound⟩, hsame hunbound (Nat.le_refl n) hx ▸ hv⟩
  · rintro ⟨x, ⟨hx, hunbound⟩, hv⟩
    refine ⟨x, ⟨h.outward_define_iff.mpr hx, fun m y hm hy => ?_⟩, ?_⟩
    · have hy := h.outward_define_iff.mp hy
      exact (hsame hunbound (Nat.le_of_lt hm) hy).trans (hunbound m y hm hy)
    · exact (hsame hunbound (Nat.le_refl n) hx).trans hv

end IsForest

end Store

/-! ## Definitions by any key -/

namespace Eval

open Store

theorem defineNamed_name {key : Value} {name : String} (h : key = .sym name ∨ key = .str name)
    (frame : FrameId) (v : Value) (s : State) : defineNamed frame key v s =
      .ok () { s with store := s.store.define frame name v } := by
  rcases h with rfl | rfl <;> rfl

theorem defineNamed_refused {key : Value} (h : ∀ name, key ≠ .sym name ∧ key ≠ .str name)
    (frame : FrameId) (v : Value) (s : State) :
    defineNamed frame key v s = .error (.notName key) s := by
  cases key with
  | sym name => exact absurd rfl (h name).1
  | str name => exact absurd rfl (h name).2
  | _ => rfl

end Eval

/-- **Shadowing.** In a forest of frames a definition succeeds if its key is a symbol or a string.
The new value is then seen from every frame from which the frame of the definition lies outward with
no nearer binding of the name. From any other frame, and for any other name, the value, whether
there is one, and how far away it is found are as before. With any other key the definition is
refused, and nothing has changed; it is refused as malformed if the key can be written in the
wording of that error, and else as a numeral that is too long. -/
theorem definition_seen {s : State} (h : s.store.IsForest) (frame : FrameId) (key v : Value) :
    (∀ name, key = .sym name ∨ key = .str name → ∃ t,
      Eval.defineNamed frame key v s = .ok () t ∧ t.store.IsForest ∧
      (∀ id n, s.store.Reaches id name n frame → t.store.view id name = (some v, true, some n)) ∧
      (∀ id other, (other = name → ∀ n, ¬ s.store.Reaches id name n frame) →
        t.store.view id other = s.store.view id other)) ∧
    ((∀ name, key ≠ .sym name ∧ key ≠ .str name) →
      Eval.defineNamed frame key v s = .error (.notName key) s ∧
        (EvalError.notName key).kind = if key.isWritable then .malformed else .numeralTooLong) := by
  refine ⟨fun name hkey => ?_, fun hkey => ⟨Eval.defineNamed_refused hkey frame v s, rfl⟩⟩
  have hdone := h.define frame name v
  refine ⟨_, Eval.defineNamed_name hkey frame v s, hdone, ?_, fun id other hmissed => ?_⟩
  · exact fun id n hreaches => hdone.view_of_nearest (h.nearest_define hreaches v)
  · exact Store.view_congr h hdone fun n w => h.nearest_define_iff hmissed

/-- Two frames around a third one, which binds the name itself, and one that lies apart: the outermost
defines the name. -/
theorem definition_seen_from_middle :
    let s : State :=
      { store := ((((Store.empty.newFrame [] none).2.newFrame [] (some 0)).2.newFrame []
          (some 1)).2.newFrame [] none).2.define 2 "x" (.int 2)
        guard := .ofLimit 9 }
    s.store.IsForest ∧ s.store.Reaches 1 "x" 1 0 ∧ (∀ n, ¬ s.store.Reaches 2 "x" n 0) ∧
      ∃ t, Eval.defineNamed 0 (.str "x") (.int 7) s = .ok () t ∧
        t.store.view 1 "x" = (some (.int 7), true, some 1) ∧
        t.store.view 2 "x" = s.store.view 2 "x" ∧ t.store.view 1 "y" = s.store.view 1 "y" ∧
        Eval.defineNamed 0 (.int 42) (.int 7) s = .error (.notName (.int 42)) s := by
  intro s
  have hforest : s.store.IsForest := by
    have hroot (s : Store) : ∀ o, (none : Option FrameId) = some o → o < s.frames.size :=
      fun _ => nofun
    refine ((((Store.IsForest.empty.newFrame [] (hroot _)).newFrame [] ?_).newFrame [] ?_).newFrame
      [] (hroot _)).define 2 "x" (.int 2)
    all_goals
      rintro o ⟨⟩
      decide
  have hreaches : s.store.Reaches 1 "x" 1 0 := by
    refine ⟨.further ⟨_, rfl, rfl⟩ (.here rfl), fun m nearer hm hnearer => ?_⟩
    obtain rfl : m = 0 := Nat.lt_one_iff.mp hm
    cases hnearer
    rfl
  have hmissed : ∀ n, ¬ s.store.Reaches 2 "x" n 0 := by
    rintro (_ | n) ⟨hout, hunshadowed⟩
    · cases hout
    · have hnone := hunshadowed 0 2 (Nat.succ_pos n) (.here rfl)
      cases hnone
  obtain ⟨t, hdone, -, hseen, hsame⟩ :=
    (definition_seen hforest 0 (.str "x") (.int 7)).1 "x" (.inr rfl)
  refine ⟨hforest, hreaches, hmissed, t, hdone, hseen 1 1 hreaches, ?_, ?_, ?_⟩
  · exact hsame 2 "x" fun _ => hmissed
  · exact hsame 1 "y" fun heq => absurd heq (by decide)
  · exact ((definition_seen hforest 0 (.int 42) (.int 7)).2 fun _ => ⟨nofun, nofun⟩).1

/-- A key that is neither a symbol nor a string, and is not refused as malformed. -/
theorem definition_by_long_numeral :
    let key : Value := .int Text.Numeral.leastTooLong
    let s : State := ⟨(Store.empty.newFrame [] none).2, .ofLimit 9⟩
    (∀ name, key ≠ .sym name ∧ key ≠ .str name) ∧
      ∃ e, Eval.defineNamed 0 key .nil s = .error e s ∧ e.kind = .numeralTooLong ∧
        e.kind ≠ .malformed := by
  intro key s
  have hkey : ∀ name, key ≠ .sym name ∧ key ≠ .str name := fun _ => ⟨nofun, nofun⟩
  have hkind : (EvalError.notName key).kind = .numeralTooLong :=
    EvalError.kind_of_not_isWritable rfl Text.Numeral.isWritable_leastTooLong
  refine ⟨hkey, _, Eval.defineNamed_refused hkey 0 .nil s, hkind, ?_⟩
  rw [hkind]
  decide

end TableLisp

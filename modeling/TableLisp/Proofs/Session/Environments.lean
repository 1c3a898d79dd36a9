import Mathlib.Data.List.Chain
import TableLisp.Proofs.Session.Soundness

/-!
# Environments

The frames of a session form a tree with the global frame as its root: from each frame the frames
around it are finitely many, all different, and the last is the global one (`Store.OutwardTo`). So
the search for a name ends wherever it starts (`Store.Search`), and the bound that the store puts to
it never cuts it short. A closure has captured a frame of this tree, has different parameters and a
body of at least one form (`Store.InOrder`), so that a call of it with as many arguments starts in a
frame of its own (`Store.CallFrame`), and any other call is refused (`World.Call`).

All this holds of a sound store, and stores stay sound from the opening of a session on, at every
moment of an evaluation and also if it fails (`environments_in_order`).
-/

namespace TableLisp

namespace Store

variable {s t : Store}

/-! ## Frames outward -/

/-- From the frame `id` outward the frames are finitely many and all different, each of them lies
directly around the one before, and the last one is `root`, around which there is none. -/
structure OutwardTo (s : Store) (root id : FrameId) : Prop where
  head : (s.scope id).head? = some id
  chain : (s.scope id).IsChain s.Around
  last : (s.scope id).getLast? = some root
  nodup : (s.scope id).Nodup
  outermost : ∀ outer, ¬ s.Around root outer

/-- The search for a name, from frame to frame outward and without any bound. It ends where the name
is bound, or else with the outermost frame. -/
inductive Search (s : Store) (name : String) : FrameId → Option Value → Prop
  | found {id : FrameId} {f : Frame} {v : Value} (hf : s.frames[id]? = some f)
      (hv : f.get? name = some v) : Search s name id (some v)
  | missed {id : FrameId} {f : Frame} (hf : s.frames[id]? = some f) (hv : f.get? name = none)
      (houter : f.outer = none) : Search s name id none
  | outward {id outer : FrameId} {f : Frame} {r : Option Value} (hf : s.frames[id]? = some f)
      (hv : f.get? name = none) (houter : f.outer = some outer) (h : Search s name outer r) :
      Search s name id r

theorem OutwardTo.inner {root id outer : FrameId} {f : Frame} (hf : s.frames[id]? = some f)
    (houter : f.outer = some outer) (hlt : outer < id) (h : s.OutwardTo root outer) :
    s.OutwardTo root id := by
  have hscope := scope_inner hf houter hlt
  refine ⟨?_, ?_, ?_, ?_, h.outermost⟩
  · rw [hscope, List.head?_cons]
  · rw [hscope]
    refine h.chain.cons fun next hnext => ?_
    rw [h.head] at hnext
    exact Option.some.inj hnext ▸ ⟨f, hf, houter⟩
  · rw [hscope, List.getLast?_cons, h.last, Option.getD_some]
  · exact s.nodup_scope id

/-! ## Closures and calls -/

/-- A closure that has captured a frame, from `root` on, that is there. Its parameters are all
different, and there is a form in its body. -/
structure InOrder (s : Store) (root : FrameId) (formals : List String) (code : Code) : Prop where
  captured : root ≤ code.frame ∧ code.frame < s.frames.size
  nodup : formals.Nodup
  nonempty : code.body ≠ []

/-- The store `t` has come from `s` by making the frame `fresh` for a call with some arguments,
inside the frame `captured`. All other frames are the same, each parameter is bound to the argument
at its position, and every other name is what it is in the frame that was captured. -/
structure CallFrame (s t : Store) (fresh captured : FrameId) (formals : List String)
    (args : List Value) : Prop where
  new : s.frames[fresh]? = none
  around : t.Around fresh captured
  keeps : s.Keeps t
  bound : ∀ (i : Nat) (name : String) (arg : Value), formals[i]? = some name →
    args[i]? = some arg → t.lookup? fresh name = some arg
  free : ∀ name, name ∉ formals → t.lookup? fresh name = s.lookup? captured name

theorem lookup_zip_of_getElem? : ∀ {formals : List String} {args : List Value} {i : Nat}
    {name : String} {arg : Value}, formals.Nodup → formals[i]? = some name → args[i]? = some arg →
    (formals.zip args).lookup name = some arg
  | [], _, _, _, _, _, hname, _ => by cases hname
  | _ :: _, [], _, _, _, _, _, harg => by cases harg
  | formal :: formals, first :: args, i, name, arg, hnodup, hname, harg => by
      obtain ⟨hnew, hnodup⟩ := List.nodup_cons.mp hnodup
      rw [List.zip_cons_cons, Frame.lookup_cons_eq]
      cases i with
      | zero =>
          rw [List.getElem?_cons_zero] at hname harg
          rw [if_pos (Option.some.inj hname).symm, harg]
      | succ i =>
          rw [List.getElem?_cons_succ] at hname harg
          have hne : name ≠ formal := by
            rintro rfl
            exact hnew (List.mem_of_getElem? hname)
          rw [if_neg hne]
          exact lookup_zip_of_getElem? hnodup hname harg

theorem lookup_zip_of_not_mem {formals : List String} {args : List Value} {name : String}
    (h : name ∉ formals) : (formals.zip args).lookup name = none := by
  rw [List.lookup_eq_none_iff]
  intro binding hbinding
  have hmem : binding.1 ∈ formals := (List.of_mem_zip hbinding).1
  refine bne_iff_ne.mpr ?_
  rintro rfl
  exact h hmem

end Store

/-! ## In sound stores -/

namespace World

variable {ω : World} {s : Store}

namespace SoundStore

variable (h : ω.SoundStore s)

include h

theorem outwardTo {id : FrameId} (hid : ω.Inside s id) : s.OutwardTo ω.root id := by
  refine h.inward (p := s.OutwardTo ω.root) (fun f hf houter => ?_) ?_ hid
  · have hscope := Store.scope_root hf houter
    refine ⟨?_, ?_, ?_, ?_, ?_⟩
    · rw [hscope, List.head?_cons]
    · rw [hscope]
      exact .singleton _
    · rw [hscope, List.getLast?_singleton]
    · exact s.nodup_scope ω.root
    · rintro outer ⟨g, hg, hsome⟩
      rw [h.outer_root hg] at hsome
      cases hsome
  · exact fun id f outer _ hf houter hlt _ ih => .inner hf houter hlt ih

theorem search {id : FrameId} (hid : ω.Inside s id) (name : String) :
    s.Search name id (s.lookup? id name) := by
  refine h.inward (p := fun id => s.Search name id (s.lookup? id name)) ?_ ?_ hid
  · intro f hf houter
    rw [Store.lookup?_root hf houter]
    cases hv : f.get? name with
    | none => exact .missed hf hv houter
    | some v => exact .found hf hv
  · intro id f outer _ hf houter hlt _ ih
    rw [Store.lookup?_inner hf houter hlt]
    cases hv : f.get? name with
    | none => exact .outward hf hv houter ih
    | some v => exact .found hf hv

end SoundStore

theorem Inside.callFrame {captured : FrameId} (hcaptured : ω.Inside s captured)
    {formals : List String} (hnodup : formals.Nodup) (args : List Value) :
    s.CallFrame (s.newFrame (formals.zip args) (some captured)).2 s.frames.size captured formals
      args where
  new := Array.getElem?_eq_none (Nat.le_refl _)
  around := ⟨_, Array.getElem?_push_size, rfl⟩
  keeps := s.keeps_newFrame _ _
  bound i name arg hname harg := by
    rw [Store.lookup?_newFrame hcaptured.lt, Store.lookup_zip_of_getElem? hnodup hname harg,
      Option.some_or]
  free name hname := by
    rw [Store.lookup?_newFrame hcaptured.lt, Store.lookup_zip_of_not_mem hname, Option.none_or,
      (s.keeps_newFrame _ _).lookup?_eq hcaptured.lt]

theorem SoundValue.inOrder {v : Value} (h : ω.SoundValue s v) {id : Nat} {formals : List String}
    (hmem : .closure id formals ∈ v.leaves) :
    ∃ code, s.codes[id]? = some code ∧ s.InOrder ω.root formals code := by
  cases h.of_mem_leaves hmem with
  | closure hcode hsound hnodup =>
      exact ⟨_, hcode, ⟨hsound.frame.le, hsound.frame.lt⟩, hnodup, hsound.nonempty⟩

/-- What the call of a closure comes to, in whatever way forms are evaluated and whoever calls. With
as many arguments as parameters the body runs in a frame that is made for the call. With any other
number the call is refused, and nothing is evaluated. -/
structure Call (ω : World) (s : State) (id : Nat) (formals : List String) (args : List Value) :
    Prop where
  starts : args.length = formals.length → ∃ code, s.store.codes[id]? = some code ∧
    let t := (s.store.newFrame (formals.zip args) (some code.frame)).2
    s.store.CallFrame t s.store.frames.size code.frame formals args ∧ ω.SoundStore t ∧
      ∀ eval caller, apply eval (.closure id formals) args caller s =
        evalBody eval s.store.frames.size .nil code.body { s with store := t }
  refused : args.length ≠ formals.length →
    ∀ eval caller, apply eval (.closure id formals) args caller s =
      .error (.arity "lambda" (.exactly formals.length) args.length) s

theorem SoundStore.call {s : State} (hstore : ω.SoundStore s.store) {id : Nat}
    {formals : List String} (hfn : ω.SoundValue s.store (.closure id formals)) {args : List Value}
    (hargs : ∀ arg ∈ args, ω.SoundValue s.store arg) : ω.Call s id formals args := by
  have happly (eval : Evaluator) (caller : FrameId) :
      apply eval (.closure id formals) args caller s = applyClosure eval id formals args s := rfl
  cases hfn with
  | @closure _ _ code hcode hsound hnodup =>
      constructor
      · intro hlength
        refine ⟨code, hcode, ?_, ?_, fun eval caller => ?_⟩
        · exact hsound.frame.callFrame hnodup args
        · exact hstore.newFrame (lookup_zip hargs) hsound.frame
        · rw [happly, applyClosure_run, if_neg (not_not.mpr hlength), hcode]
      · intro hlength eval caller
        rw [happly, applyClosure_run, if_pos hlength]

end World

/-! ## At every moment -/

namespace Session

/-- **Environments in order.** A session that is opened without closures and runs programs is sound,
and so is all that it comes upon. In a sound store the frames around each frame of the session lead
to the global one, so that every search for a name ends, with what the lookup yields. The closures
have captured a frame of the session, have different parameters and a body. Whatever is evaluated or
called leaves a sound store, be it with a sound value or with an error. A call of a closure with as
many arguments as parameters starts in a new frame, where the parameters are bound to the arguments
and all other names are what they are in the frame that was captured, and any other call of it is
refused before anything is evaluated. -/
theorem environments_in_order :
    (∀ (store : Store) (limit : Int) (bindings : List (String × Value)) (codes : List String),
      (∀ binding ∈ bindings, binding.2.closures = []) →
      let ω := World.whole store.frames.size
      let done := (openOn store limit bindings).runAll codes
      ω.SoundSession done.2 ∧
        ∀ v, ComeUpon done.1 done.2 v → ω.SoundValue done.2.state.store v) ∧
    (∀ (root : FrameId) (s : State),
      let ω := World.whole root
      ω.SoundStore s.store →
      (∀ id, ω.Inside s.store id → s.store.OutwardTo root id ∧
        (∀ name, s.store.Search name id (s.store.lookup? id name)) ∧
        ∀ name v, s.store.get? id name = some v → ω.SoundValue s.store v) ∧
      (∀ v, ω.SoundValue s.store v → ∀ id formals, .closure id formals ∈ v.leaves →
        ∃ code, s.store.codes[id]? = some code ∧ s.store.InOrder root formals code) ∧
      (∀ form frame, form.Readable → ω.Inside s.store frame →
        ω.Sound ω.SoundValue s (evaluate form frame s)) ∧
      (∀ fn args caller, ω.SoundValue s.store fn → (∀ arg ∈ args, ω.SoundValue s.store arg) →
        ω.Sound ω.SoundValue s (applyValue fn args caller s)) ∧
      (∀ id formals args, ω.SoundValue s.store (.closure id formals) →
        (∀ arg ∈ args, ω.SoundValue s.store arg) → ω.Call s id formals args)) := by
  constructor
  · intro store limit bindings codes hplain
    exact World.sound_runAll store limit hplain (Set.subset_univ _)
  · intro root s ω hstore
    refine ⟨fun id hid => ?_, fun v hv id formals hmem => ?_, fun form frame hform hframe => ?_,
      fun fn args caller hfn hargs => ?_, fun id formals args hfn hargs => ?_⟩
    · exact ⟨hstore.outwardTo hid, hstore.search hid, hstore.get? hid.le⟩
    · exact hv.inOrder hmem
    · have hcovers : ω.Covers form := Supply.covers_of hform fun a _ => Set.mem_univ a
      exact World.evaluate_sound hcovers hstore hframe
    · exact World.applyValue_sound hstore hfn hargs caller
    · exact hstore.call hfn hargs

/-- A procedure that another one has made is called once with an argument and once with none. -/
theorem environments_of_consing :
    let codes := ["(define f (lambda (x) (lambda (y) (cons x y))))", "(define g (f one))",
      "(g car)", "(g)"]
    let done := (openOn .empty 9 [("one", .int 1)]).runAll codes
    let s := done.2.state
    let g := Value.closure 1 ["y"]
    let ω := World.whole 0
    ω.SoundSession done.2 ∧
      (s.store.OutwardTo 0 2 ∧ ∀ name, s.store.Search name 2 (s.store.lookup? 2 name)) ∧
      (∃ code, s.store.codes[1]? = some code ∧ s.store.InOrder 0 ["y"] code) ∧
      ω.Sound ω.SoundValue s (evaluate (.list [.sym "g", .sym "x"]) 2 s) ∧
      ω.Sound ω.SoundValue s (applyValue g [.int 2] 0 s) ∧
      ω.Call s 1 ["y"] [.int 2] ∧ ω.Call s 1 ["y"] [] := by
  intro codes done s g ω
  obtain ⟨hdone, hcome⟩ :=
    environments_in_order.1 .empty 9 [("one", .int 1)] codes (by decide)
  obtain ⟨hframes, hclosures, heval, hvalue, hcall⟩ := environments_in_order.2 0 s hdone.store
  have hbound : s.store.get? done.2.global "g" = some g := by decide +kernel
  have hg : ω.SoundValue s.store g := hcome g (.bound (Nat.le_refl _) hbound)
  have hparse : parse 9 "(g x)".toList = .ok [.list [.sym "g", .sym "x"]] := by decide +kernel
  have hform := (readableAt_of_parse hparse _ (List.mem_singleton_self _)).readable
  have hsize : s.store.frames.size = 3 := by decide +kernel
  have hinside : ω.Inside s.store 2 := ⟨Nat.zero_le _, hsize ▸ Nat.lt_succ_self 2⟩
  have htwo : ∀ arg ∈ [Value.int 2], ω.SoundValue s.store arg :=
    List.forall_mem_singleton.mpr (.int (Set.mem_univ 2))
  exact ⟨hdone, ⟨(hframes 2 hinside).1, (hframes 2 hinside).2.1⟩,
    hclosures g hg 1 ["y"] (List.mem_singleton_self _), heval _ 2 hform hinside,
    hvalue g [.int 2] 0 hg htwo, hcall 1 ["y"] [.int 2] hg htwo,
    hcall 1 ["y"] [] hg (List.forall_mem_nil _)⟩

end Session

end TableLisp

import TableLisp.Proofs.Session.Simulation

/-!
# Calls have no memory

A call changes no frame and no code that was there before it. It leaves new ones behind, so a later
call makes its own frames and closures under other numbers, but nothing can tell: the later run is
the first one with its new frames and closures shifted (`Correspondence.shift`).

For this the state has to be closed: whatever its frames and closures refer to is there, for else
a number that refers to nothing in the first run might refer to something new in the second. This is
to say that the state corresponds to itself number by number (`Correspondence.identity`). Every step
that is taken on both of two such states keeps them the same, so all states that sessions and calls
can reach are closed (`State.Reachable.closed`).
-/

namespace TableLisp

/-! ## Values and states -/

/-- Whether the closures of a value are there. -/
def Store.Holds (s : Store) (v : Value) : Prop :=
  ∀ id ∈ v.closures, id < s.codes.size

instance (s : Store) (v : Value) : Decidable (s.Holds v) :=
  inferInstanceAs (Decidable (∀ id ∈ v.closures, id < s.codes.size))

namespace State

/-- The states that can be reached by sessions and by calls. Several sessions may share the state,
a value may be handed from one to the other, and a call may come at any depth of evaluation. -/
inductive Reachable : State → Prop
  | initial (limit : Int) : Reachable (.initial limit)
  | session {s : State} (h : Reachable s) : Reachable s.newSession.state
  | define {s : State} (h : Reachable s) {frame : FrameId} (hframe : frame < s.store.frames.size)
      (name : String) {v : Value} (hv : s.store.Holds v) :
      Reachable ((Session.mk s frame).define name v).state
  | run {s : State} (h : Reachable s) {frame : FrameId} (hframe : frame < s.store.frames.size)
      (code : String) : Reachable ((Session.mk s frame).run code).2.state
  | guard {s : State} (h : Reachable s) (guard : Guard) : Reachable { s with guard }
  | call {s : State} (h : Reachable s) {fn : Value} (hfn : s.store.Holds fn) {args : List Value}
      (hargs : ∀ arg ∈ args, s.store.Holds arg) (caller : FrameId) :
      Reachable ((applyValue fn args caller).after s)

/-- The states that calls of values which are there lead to, each made from where the one before
ended. -/
inductive Calls (s : State) : State → Prop
  | none : Calls s s
  | call {t : State} (h : Calls s t) {fn : Value} (hfn : t.store.Holds fn) {args : List Value}
      (hargs : ∀ arg ∈ args, t.store.Holds arg) (caller : FrameId) :
      Calls s ((applyValue fn args caller).after t)

end State

/-! ## The same numbers on both sides -/

/-- Renames nothing. -/
def Renaming.identity : Renaming where
  visible := Set.univ
  apply := id
  injOn := Set.injOn_id _
  special _ _ := rfl

theorem Renaming.identity_name (a : String) : Renaming.identity.Name a a :=
  ⟨Set.mem_univ a, rfl⟩

namespace Correspondence

variable {ρ : Correspondence} {n : Nat} {s t : State}

theorem Alike.after {V : Nat → α → β → Prop} {x : Eval α} {x' : Eval β} {s' : State}
    (h : ρ.Alike V s (x s) (x' s')) :
    ρ.SameState (x.after s) (x'.after s') ∧ s.store.Extends (x.after s).store := by
  unfold Eval.after
  generalize x s = r at h
  generalize x' s' = r' at h
  cases h with
  | ok _ hstate hext | error _ hstate hext => exact ⟨hstate, hext⟩

/-- Everything corresponds to itself. -/
def identity : Correspondence where
  toRenaming := .identity
  frame id id' := id' = id
  code id id' := id' = id
  frame_unique := ⟨fun _ _ _ h h' => h.symm.trans h', fun _ _ _ h h' => h.trans h'.symm⟩
  code_unique := ⟨fun _ _ _ h h' => h.symm.trans h', fun _ _ _ h h' => h.trans h'.symm⟩

/-- A value whose closures keep their numbers is the same as itself. -/
theorem SameValue.refl (hnames : ∀ a, ρ.Name a a) {v : Value}
    (h : ∀ id ∈ v.closures, id < n ∧ ρ.code id id) : ρ.SameValue n v v := by
  induction v with
  | pair head tail ihhead ihtail =>
      rw [Value.closures, List.forall_mem_append] at h
      exact .pair (ihhead h.1) (ihtail h.2)
  | closure id formals =>
      obtain ⟨hlt, hcode⟩ := h id (List.mem_singleton_self id)
      exact .closure hlt hcode (List.forall₂_same.mpr fun a _ => hnames a)
  | _ => constructor

theorem SameValue.eq_of_identity {v v' : Value} (h : identity.SameValue n v v') : v' = v := by
  rw [h.eq_rename fun _ _ h => h]
  exact v.rename_id

/-- A value is the same under any correspondence in which its closures keep their numbers. -/
theorem SameValue.of_identity (hnames : ∀ a, ρ.Name a a) {m : Nat}
    (hcodes : ∀ id, id < n → id < m ∧ ρ.code id id) {v v' : Value}
    (h : identity.SameValue n v v') : ρ.SameValue m v v' := by
  obtain rfl := h.eq_of_identity
  exact .refl hnames fun id hid => hcodes id (h.closures id hid).1

theorem sameValue_identity {v : Value} (h : s.store.Holds v) :
    identity.SameValue s.store.codes.size v v :=
  .refl Renaming.identity_name fun id hid => ⟨h id hid, rfl⟩

theorem sameValues_identity {args : List Value} (h : ∀ arg ∈ args, s.store.Holds arg) :
    List.Forall₂ (identity.SameValue s.store.codes.size) args args :=
  List.forall₂_same.mpr fun arg harg => sameValue_identity (h arg harg)

end Correspondence

open Correspondence

/-! ## Reachable states are closed -/

namespace State

/-- A state in which everything that is referred to is there. -/
def Closed (s : State) : Prop :=
  identity.SameState s s

theorem Closed.call {s : State} (h : s.Closed) {fn : Value} (hfn : s.store.Holds fn)
    {args : List Value} (hargs : ∀ arg ∈ args, s.store.Holds arg) (caller : FrameId) :
    ((applyValue fn args caller).after s).Closed ∧
      s.store.Extends ((applyValue fn args caller).after s).store :=
  (applyValue_alike h (sameValue_identity hfn) (sameValues_identity hargs) caller caller).after

theorem Reachable.closed {s : State} (h : s.Reachable) : s.Closed := by
  induction h with
  | initial limit =>
      refine ⟨⟨fun _ => rfl, fun _ => rfl, fun _ hlt => ?_, fun _ hlt => ?_⟩, rfl⟩
      · exact absurd hlt (Nat.not_lt_zero _)
      · exact absurd hlt (Nat.not_lt_zero _)
  | @session s _ ih =>
      have hsession : identity.SameSession (s.newSession.defineAll [])
          (s.newSession.defineAll []) := by
        refine sameSession_newSession ih fun a a' ha => ?_
        obtain rfl : a' = a := ha.2
        exact rel_globalFrame s.store fun v hmem => absurd hmem List.not_mem_nil
      exact hsession.state
  | define _ hframe name hv ih =>
      refine ⟨?_, rfl⟩
      exact ih.store.define ⟨hframe, rfl⟩ (Renaming.identity_name name) (sameValue_identity hv)
  | @run s _ frame hframe code ih =>
      have hsession : identity.SameSession ⟨s, frame⟩ ⟨s, frame⟩ := ⟨ih, hframe, rfl⟩
      exact (hsession.run rfl fun a _ => Set.mem_univ a).2.state
  | guard _ g ih => exact ih.withGuard g
  | call _ hfn hargs caller ih => exact (ih.call hfn hargs caller).1

end State

/-! ## The run after other calls -/

namespace Correspondence

/-- Numbers below `a` stay, and those from `a` on are counted from `b` on. -/
def Shifted (a b id id' : Nat) : Prop :=
  id < a ∧ id' = id ∨ a ≤ id ∧ id' + a = id + b

theorem shifted_biUnique {a b : Nat} (hle : a ≤ b) : Relator.BiUnique (Shifted a b) := by
  unfold Shifted
  constructor <;> intro x y z h h' <;> omega

theorem shifted_add (a b k : Nat) : Shifted a b (a + k) (b + k) :=
  Or.inr ⟨Nat.le_add_right .., by omega⟩

theorem Shifted.eq {a b id id' : Nat} (h : Shifted a b id id') (hlt : id < a) : id' = id := by
  unfold Shifted at h
  omega

/-- What is in the first store keeps its number, and what is made after it gets the number that it
gets in the second, larger store. -/
def shift {s t : Store} (hext : s.Extends t) : Correspondence where
  toRenaming := .identity
  frame := Shifted s.frames.size t.frames.size
  code := Shifted s.codes.size t.codes.size
  frame_unique := shifted_biUnique hext.frames
  code_unique := shifted_biUnique hext.size

variable {s t : Store} (hext : s.Extends t) {n : Nat} {v v' : Value}

theorem SameValue.shift (hn : n ≤ s.codes.size) (h : identity.SameValue n v v') :
    (shift hext).SameValue n v v' :=
  h.of_identity Renaming.identity_name fun _ hid =>
    ⟨hid, Or.inl ⟨Nat.lt_of_lt_of_le hid hn, rfl⟩⟩

/-- A closed store is the same as any later one that keeps its frames. -/
theorem SameStore.shift (h : identity.SameStore s s) (hkeeps : s.Keeps t) :
    (shift hext).SameStore s t where
  nextFrame := shifted_add s.frames.size t.frames.size
  nextCode := shifted_add s.codes.size t.codes.size
  frames {id id'} hframe hlt := by
    obtain rfl : id' = id := hframe.eq hlt
    obtain ⟨f, f', hf, hf', hbound, houter⟩ := h.frames rfl hlt
    obtain rfl : f = f' := Option.some.inj (hf.symm.trans hf')
    refine ⟨f, f, hf, hkeeps id' f hf, fun a a' ha => ?_, ?_⟩
    · exact rel_mono (fun _ _ hv => hv.shift hext (Nat.le_refl _)) (hbound a a' ha)
    · exact rel_mono (fun o o' ho => ⟨ho.1, Or.inl ⟨Nat.lt_trans ho.1.1 hlt, ho.2⟩⟩) houter
  codes {id id'} hcode hlt := by
    obtain rfl : id' = id := hcode.eq hlt
    obtain ⟨c, c', hc, hc', hsame⟩ := h.codes rfl hlt
    obtain rfl : c = c' := Option.some.inj (hc.symm.trans hc')
    exact ⟨c, c, hc, hext.codes id' c hc, hsame.lt, Or.inl ⟨hsame.lt, hsame.frame⟩,
      hsame.covered, hsame.body⟩

end Correspondence

namespace State

/-- A closed state and one that came of it without a change to what was there. -/
structure Grows (s t : State) : Prop where
  closed : t.Closed
  extend : s.store.Extends t.store
  keeps : s.store.Keeps t.store
  guard : t.guard = s.guard

/-- Whatever is called, everything that was there stays as it is. -/
theorem Calls.grows {s t : State} (hs : s.Closed) (h : s.Calls t) : s.Grows t := by
  induction h with
  | none => exact ⟨hs, refl_of Store.Extends s.store, refl_of State.Keeps s, rfl⟩
  | @call t _ fn hfn args hargs caller ih =>
      obtain ⟨hclosed, hext⟩ := ih.closed.call hfn hargs caller
      have hkeeps : t.Keeps ((applyValue fn args caller).after t) :=
        apply_keeps (evalWith_confined t.guard.room) fn args caller t
      exact ⟨hclosed, trans_of Store.Extends ih.extend hext,
        trans_of State.Keeps ih.keeps hkeeps, (applyValue_guard fn args caller t).trans ih.guard⟩

end State

/-! ## Two calls -/

/-- Two outcomes that look the same: values with the same text, which are equal unless there is a
closure in them, or errors of one kind with the same message. -/
inductive SameOutcome : EStateM.Result EvalError State Value →
    EStateM.Result EvalError State Value → Prop
  | value {v w : Value} {t u : State} (htext : w.text = v.text)
      (hequal : v.closures = [] → v.isEqual w = true) : SameOutcome (.ok v t) (.ok w u)
  | error {e e' : EvalError} {t u : State} (hkind : e'.kind = e.kind)
      (hmessage : e'.message = e.message) : SameOutcome (.error e t) (.error e' u)

theorem Correspondence.Alike.sameOutcome {ρ : Correspondence} (hnames : ρ.apply = id) {s : State}
    {r r' : EStateM.Result EvalError State Value} (h : ρ.Alike ρ.SameValue s r r') :
    SameOutcome r r' := by
  cases h with
  | ok hv _ _ =>
      refine .value (hv.text_eq hnames) fun hnone => ?_
      rw [hv.eq_of_closures_eq_nil hnone, Value.isEqual_iff]
  | error he _ _ => exact .error he.kind_eq (he.message_eq hnames)

theorem sameOutcome_of_grows {s t : State} (hs : s.Closed) (h : s.Grows t) {fn : Value}
    (hfn : s.store.Holds fn) {args : List Value} (hargs : ∀ arg ∈ args, s.store.Holds arg)
    (caller caller' : FrameId) :
    SameOutcome (applyValue fn args caller s) (applyValue fn args caller' t) := by
  have hstate : (shift h.extend).SameState s t :=
    ⟨hs.store.shift h.extend h.keeps, h.guard⟩
  have hvalue {v : Value} (hv : s.store.Holds v) :
      (shift h.extend).SameValue s.store.codes.size v v :=
    (sameValue_identity hv).shift h.extend (Nat.le_refl _)
  have hvalues : List.Forall₂ ((shift h.extend).SameValue s.store.codes.size) args args :=
    List.forall₂_same.mpr fun arg harg => hvalue (hargs arg harg)
  exact (applyValue_alike hstate (hvalue hfn) hvalues caller caller').sameOutcome rfl

/-- **Calls have no memory.** In a reachable state a value is called with some arguments. Called
again after this, by any caller, it has the same outcome; and so it has after any other calls. -/
theorem calls_have_no_memory :
    (∀ (s : State) (fn : Value) (args : List Value) (caller caller' : FrameId), s.Reachable →
      s.store.Holds fn → (∀ arg ∈ args, s.store.Holds arg) →
      SameOutcome (applyValue fn args caller s)
        (applyValue fn args caller' ((applyValue fn args caller).after s))) ∧
    (∀ (s t : State) (fn : Value) (args : List Value) (caller caller' : FrameId), s.Reachable →
      s.Calls t → s.store.Holds fn → (∀ arg ∈ args, s.store.Holds arg) →
      SameOutcome (applyValue fn args caller s) (applyValue fn args caller' t)) := by
  have hcalls {s t : State} {fn : Value} {args : List Value} (caller caller' : FrameId)
      (hs : s.Reachable) (h : s.Calls t) (hfn : s.store.Holds fn)
      (hargs : ∀ arg ∈ args, s.store.Holds arg) :
      SameOutcome (applyValue fn args caller s) (applyValue fn args caller' t) :=
    sameOutcome_of_grows hs.closed (h.grows hs.closed) hfn hargs caller caller'
  refine ⟨fun s fn args caller caller' hs hfn hargs => ?_, fun s t fn args caller caller' => ?_⟩
  · exact hcalls caller caller' hs (State.Calls.none.call hfn hargs caller) hfn hargs
  · exact hcalls caller caller'

/-- Each call makes a closure with a number of its own, and none of the others shows. -/
theorem calls_of_pairing :
    let first := Session.start 5
    let s := ((Session.mk first.state first.global).run
      "(define f (lambda (x) (cons x (lambda () x))))").2.state
    let f := Value.closure 0 ["x"]
    let t := (applyValue f [.int 1] 0).after s
    SameOutcome (applyValue f [.int 1] 0 s) (applyValue f [.int 1] 1 t) ∧
      SameOutcome (applyValue f [.str "a"] 0 s) (applyValue f [.str "a"] 1 t) := by
  intro first s f t
  have hs : s.Reachable := .run (.session (.initial 5)) (by decide +kernel) _
  have hf : s.store.Holds f := by decide +kernel
  have hone : ∀ arg ∈ [Value.int 1], s.store.Holds arg := by decide +kernel
  have hcalls : s.Calls t := .call .none hf hone 0
  exact ⟨calls_have_no_memory.1 s f [.int 1] 0 1 hs hf hone,
    calls_have_no_memory.2 s t f [.str "a"] 0 1 hs hcalls hf (by decide +kernel)⟩

end TableLisp

import Mathlib.Logic.Equiv.Basic
import TableLisp.Proofs.Eval.Yields
import TableLisp.Proofs.Session.Memory

/-!
# Definitions in any order

A definition of a procedure evaluates nothing of the procedure's body: it makes a closure and binds
its name (`Procedure.install`). Two such definitions in the one order and in the other leave stores
that differ in the numbers of the two closures and in the order of the two bindings. The first is a
transposition, hence a correspondence (`Correspondence.transposed`), and the second does not show,
as long as the names differ. So nothing that is evaluated later tells the orders apart, and by
adjacent transpositions this holds of all orders of any number of definitions
(`definitions_in_any_order`).
-/

namespace TableLisp

/-! ## What a session shows -/

/-- What is shown of an answer: the kind and the text of a value, or the kind and the message of an
error. -/
inductive Shown
  | value (kind : Value.Kind) (text : String)
  | unreadable (e : ReadError)
  | failed (kind : EvalError.Kind) (message : String)
  deriving DecidableEq, Repr

def shown : Except RunError Value → Shown
  | .ok v => .value v.kind v.text
  | .error (.read e) => .unreadable e
  | .error (.eval e) => .failed e.kind e.message

namespace Correspondence

variable {ρ : Correspondence} {n : Nat}

theorem SameValue.kind_eq {v v' : Value} (h : ρ.SameValue n v v') : v'.kind = v.kind := by
  cases h <;> rfl

theorem SameAnswer.shown_eq (hnames : ρ.apply = id) {r r' : Except RunError Value}
    (h : ρ.SameAnswer r r') : shown r' = shown r := by
  cases h with
  | value h => rw [shown, shown, h.kind_eq, h.text_eq hnames]
  | unreadable e => rfl
  | failed h => rw [shown, shown, h.kind_eq, h.message_eq hnames]

end Correspondence

namespace Session

/-- Two sessions that no programs tell apart. -/
def Indistinguishable (a b : Session) : Prop :=
  ∀ codes : List String, (b.runAll codes).1.map shown = (a.runAll codes).1.map shown

theorem Indistinguishable.refl (a : Session) : a.Indistinguishable a :=
  fun _ => rfl

theorem Indistinguishable.trans {a b c : Session} (hab : a.Indistinguishable b)
    (hbc : b.Indistinguishable c) : a.Indistinguishable c :=
  fun codes => (hbc codes).trans (hab codes)

end Session

theorem Correspondence.SameSession.indistinguishable {ρ : Correspondence} {a b : Session}
    (h : ρ.SameSession a b) (hnames : ρ.toRenaming = .identity) : a.Indistinguishable b := by
  intro codes
  have hvisible : ∀ name, name ∈ ρ.visible := by
    rw [hnames]
    exact Set.mem_univ
  have happly : ρ.apply = id := by rw [hnames]; rfl
  have hanswers : List.Forall₂ ρ.SameAnswer (a.runAll codes).1 (b.runAll codes).1 :=
    h.runAll happly fun _ _ name _ => hvisible name
  have hshown : List.Forall₂ Eq ((b.runAll codes).1.map shown) ((a.runAll codes).1.map shown) :=
    List.rel_map (fun _ _ hanswer => SameAnswer.shown_eq happly hanswer) hanswers.flip
  rwa [List.forall₂_eq_eq_eq] at hshown

/-! ## Definitions of procedures -/

/-- A procedure with its name: parameters that are all different, and a body of at least one
form. -/
structure Procedure where
  name : String
  params : List String
  nodup : params.Nodup
  first : Form
  rest : List Form

namespace Procedure

/-- The parameter list, which is the constant `nil` if there are no parameters. -/
def parameterList (d : Procedure) : Form :=
  if d.params.isEmpty then .const .nil else .list (d.params.map .sym)

/-- The form that defines a procedure. -/
def form (d : Procedure) : Form :=
  .list [.sym SpecialForm.define.name, .sym d.name,
    .list (.sym SpecialForm.lambda.name :: d.parameterList :: d.first :: d.rest)]

/-- The code of the closure, if the definition is evaluated in a frame. -/
def code (d : Procedure) (frame : FrameId) : Code :=
  ⟨d.first :: d.rest, frame⟩

/-- Makes the closure and binds its name. -/
def install (frame : FrameId) (s : Store) (d : Procedure) : Store :=
  let made := s.newClosure d.params (d.code frame)
  made.2.define frame d.name made.1

theorem codes_install (d : Procedure) (frame : FrameId) (s : Store) :
    (d.install frame s).codes = s.codes.push (d.code frame) := rfl

theorem frames_install (d : Procedure) (frame : FrameId) (s : Store) :
    (d.install frame s).frames =
      s.frames.modify frame (·.define d.name (.closure s.codes.size d.params)) := rfl

theorem getElem?_install {s : Store} {frame : FrameId} {f : Frame}
    (h : s.frames[frame]? = some f) (d : Procedure) :
    (d.install frame s).frames[frame]? =
      some (f.define d.name (.closure s.codes.size d.params)) := by
  rw [frames_install, Array.getElem?_modify, if_pos rfl, h]
  rfl

theorem getElem?_install_of_ne {frame id : FrameId} (h : frame ≠ id) (s : Store)
    (d : Procedure) : (d.install frame s).frames[id]? = s.frames[id]? := by
  rw [frames_install, Array.getElem?_modify, if_neg h]

theorem extends_install (d : Procedure) (frame : FrameId) (s : Store) :
    s.Extends (d.install frame s) :=
  trans_of Store.Extends (s.extends_newClosure _ _) (Store.extends_define _ _ _ _)

theorem parameterNames_sym : ∀ {names seen : List String}, (seen.reverse ++ names).Nodup →
    parameterNames seen (names.map .sym) = .ok (seen.reverse ++ names)
  | [], seen, _ => by simp [parameterNames]
  | name :: names, seen, h => by
      have hnew : name ∉ seen := by
        have := (List.nodup_append.mp h).2.2
        intro hmem
        exact this name (List.mem_reverse.mpr hmem) name List.mem_cons_self rfl
      have happend : seen.reverse ++ name :: names = (name :: seen).reverse ++ names := by simp
      rw [happend] at h ⊢
      simp only [List.map_cons, parameterNames, List.contains_iff_mem, hnew, if_false]
      exact parameterNames_sym h

theorem parameters_parameterList (d : Procedure) : parameters d.parameterList = .ok d.params := by
  obtain ⟨name, params, nodup, first, rest⟩ := d
  cases params with
  | nil => rfl
  | cons p params => exact @parameterNames_sym (p :: params) [] nodup

/-- A definition takes two levels of nesting, whatever the procedure does. -/
theorem yields_form (d : Procedure) (frame : FrameId) (s : Store) :
    Eval.Yields 2 (evaluate d.form frame) s (.closure s.codes.size d.params)
      (d.install frame s) :=
  (Eval.Yields.lambda d.parameters_parameterList frame s).define

theorem readable_body {d : Procedure} (h : d.form.Readable) :
    ∀ form ∈ d.first :: d.rest, form.Readable := by
  cases h with
  | list _ hitems =>
      have hlambda := hitems (.list (.sym SpecialForm.lambda.name :: d.parameterList ::
        d.first :: d.rest)) (by simp)
      cases hlambda with
      | list _ hitems =>
          exact fun form hform =>
            hitems form (List.mem_cons_of_mem _ (List.mem_cons_of_mem _ hform))

theorem yields_forms (frame : FrameId) : ∀ (defs : List Procedure) (last : Value) (s : Store),
    ∃ v, Eval.Yields 2 (evalBody evaluate frame last (defs.map form)) s v
      (defs.foldl (install frame) s)
  | [], last, s => ⟨last, .pure last s⟩
  | d :: rest, last, s => by
      obtain ⟨v, hrest⟩ := yields_forms frame rest (.closure s.codes.size d.params)
        (install frame s d)
      exact ⟨v, (d.yields_form frame s).bind hrest⟩

end Procedure

/-! ## Two definitions -/

namespace Correspondence

/-- The procedures that a store keeps when the numbers `n` and `n + 1` of closures change places. -/
def transposed (n : Nat) : Correspondence where
  toRenaming := .identity
  frame id id' := id' = id
  code id id' := id' = Equiv.swap n (n + 1) id
  frame_unique := identity.frame_unique
  code_unique := by
    constructor
    · intro a b c hac hbc
      exact (Equiv.swap n (n + 1)).injective (hac.symm.trans hbc)
    · intro a b c hab hac
      exact hab.trans hac.symm

theorem transposed_code_of_lt {n id : Nat} (h : id < n) : (transposed n).code id id :=
  (Equiv.swap_apply_of_ne_of_ne (by omega) (by omega)).symm

theorem SameValue.transposed {n m : Nat} (hle : n ≤ m) {v v' : Value}
    (h : identity.SameValue n v v') : (transposed n).SameValue m v v' :=
  h.of_identity Renaming.identity_name fun _ hid =>
    ⟨Nat.lt_of_lt_of_le hid hle, transposed_code_of_lt hid⟩

variable {s s' : Store} {frame : FrameId}

/-- A definition of a procedure on both sides keeps them the same. -/
theorem SameStore.install {ρ : Correspondence} (hnames : ρ.toRenaming = .identity)
    (h : ρ.SameStore s s') (hframe : ρ.SameId s frame frame) {d : Procedure}
    (hd : d.form.Readable) :
    ρ.SameStore (d.install frame s) (d.install frame s') := by
  have hname (a : String) : ρ.Name a a := hnames ▸ Renaming.identity_name a
  have hcode : ρ.SameCode s.frames.size (d.code frame) (d.code frame) := by
    refine ⟨hframe.lt, hframe.frame, fun form hform => ?_, ?_⟩
    · exact ⟨d.readable_body hd form hform, fun a _ => (hname a).1⟩
    · rw [hnames, show Renaming.identity.apply = id from rfl, Form.map_rename_id]
  obtain ⟨hstore, hv⟩ := h.newClosure (List.forall₂_same.mpr fun a _ => hname a) hcode
  exact hstore.define (hframe.mono (s.extends_newClosure ..)) (hname d.name) hv

theorem SameFrame.define_define {n : Nat} {id id' : FrameId} {f f' : Frame}
    (h : identity.SameFrame n id id' f f') {a b : String} (hne : a ≠ b)
    (params params' : List String) :
    (transposed n).SameFrame (n + 2) id id'
      ((f.define a (.closure n params)).define b (.closure (n + 1) params'))
      ((f'.define b (.closure n params')).define a (.closure (n + 1) params)) where
  bound c c' hc := by
    obtain rfl : c' = c := hc.2
    have hsame (params : List String) : List.Forall₂ (transposed n).Name params params :=
      List.forall₂_same.mpr fun name _ => Renaming.identity_name name
    simp only [Frame.get?_define]
    by_cases hb : c' = b
    · rw [if_pos hb, if_neg (hb.trans_ne hne.symm), if_pos hb]
      exact .some (.closure (by omega) (Equiv.swap_apply_right ..).symm (hsame params'))
    · rw [if_neg hb, if_neg hb]
      by_cases ha : c' = a
      · rw [if_pos ha, if_pos ha]
        exact .some (.closure (by omega) (Equiv.swap_apply_left ..).symm (hsame params))
      · rw [if_neg ha, if_neg ha]
        exact rel_mono (fun _ _ hv => hv.transposed (by omega)) (h.bound c' c' hc)
  outer := h.outer

theorem SameFrame.transposed {n m : Nat} (hle : n ≤ m) {id id' : FrameId} {f f' : Frame}
    (h : identity.SameFrame n id id' f f') : (transposed n).SameFrame m id id' f f' :=
  { h with bound := fun a a' ha => rel_mono (fun _ _ hv => hv.transposed hle) (h.bound a a' ha) }

/-- Two definitions under different names leave the same, in whatever order they are made. -/
theorem SameStore.install_install (h : identity.SameStore s s) {d d' : Procedure}
    (hne : d.name ≠ d'.name) (hframe : frame < s.frames.size) (hd : d.form.Readable)
    (hd' : d'.form.Readable) :
    (transposed s.codes.size).SameStore (d'.install frame (d.install frame s))
      (d.install frame (d'.install frame s)) where
  nextFrame k := by
    simp only [Procedure.frames_install, Array.size_modify]
    rfl
  nextCode k := by
    simp only [Procedure.codes_install, Array.size_push]
    exact (Equiv.swap_apply_of_ne_of_ne (by omega) (by omega)).symm
  frames {id id'} hid hlt := by
    obtain rfl : id' = id := hid
    simp only [Procedure.frames_install, Array.size_modify] at hlt
    obtain ⟨f, f', hf, hf', hsame⟩ := h.frames rfl hlt
    simp only [Procedure.codes_install, Array.size_push]
    by_cases heq : frame = id'
    · obtain rfl := heq
      have hfirst := d'.getElem?_install (d.getElem?_install hf)
      have hsecond := d.getElem?_install (d'.getElem?_install hf')
      rw [Procedure.codes_install, Array.size_push] at hfirst hsecond
      exact ⟨_, _, hfirst, hsecond, hsame.define_define hne d.params d'.params⟩
    · refine ⟨f, f', ?_, ?_, hsame.transposed (by omega)⟩
      · rw [Procedure.getElem?_install_of_ne heq, Procedure.getElem?_install_of_ne heq, hf]
      · rw [Procedure.getElem?_install_of_ne heq, Procedure.getElem?_install_of_ne heq, hf']
  codes {id id'} hid hlt := by
    have hcode {d : Procedure} (hd : d.form.Readable) :
        (transposed s.codes.size).SameCode s.frames.size (d.code frame) (d.code frame) := by
      refine ⟨hframe, rfl, fun form hform => ?_, (Form.map_rename_id _).symm⟩
      exact ⟨d.readable_body hd form hform, fun a _ => Set.mem_univ a⟩
    have htwo (c c' : Code) : ((s.codes.push c).push c')[s.codes.size]? = some c ∧
        ((s.codes.push c).push c')[s.codes.size + 1]? = some c' := by
      constructor <;> simp only [Array.getElem?_push, Array.size_push] <;> simp
    simp only [Procedure.codes_install, Procedure.frames_install, Array.size_modify,
      Array.size_push] at hlt ⊢
    obtain hold | rfl | rfl : id < s.codes.size ∨ id = s.codes.size ∨ id = s.codes.size + 1 := by
      omega
    · obtain rfl : id' = id := hid.trans (transposed_code_of_lt hold).symm
      obtain ⟨c, c', hc, hc', hsame⟩ := h.codes rfl hold
      have hne : id' ≠ s.codes.size := by omega
      have hne' : id' ≠ s.codes.size + 1 := by omega
      refine ⟨c, c', ?_, ?_, hsame.lt, hsame.frame, hsame.covered, hsame.body⟩
      · simp only [Array.getElem?_push, Array.size_push, if_neg hne, if_neg hne', hc]
      · simp only [Array.getElem?_push, Array.size_push, if_neg hne, if_neg hne', hc']
    · obtain rfl : id' = s.codes.size + 1 := hid.trans (Equiv.swap_apply_left ..)
      exact ⟨_, _, (htwo ..).1, (htwo ..).2, hcode hd⟩
    · obtain rfl : id' = s.codes.size := hid.trans (Equiv.swap_apply_right ..)
      exact ⟨_, _, (htwo ..).2, (htwo ..).1, hcode hd'⟩

end Correspondence

/-! ## Any number of definitions -/

namespace Procedure

open Correspondence

/-- What is defined later on both sides does not tell two stores apart that are the same. -/
theorem indistinguishable_of_same {ρ : Correspondence} (hnames : ρ.toRenaming = .identity)
    {frame : FrameId} (g : Guard) : ∀ (defs : List Procedure) (s s' : Store),
      (∀ d ∈ defs, d.form.Readable) → ρ.SameStore s s' → ρ.SameId s frame frame →
      (Session.mk ⟨defs.foldl (install frame) s, g⟩ frame).Indistinguishable
        (Session.mk ⟨defs.foldl (install frame) s', g⟩ frame)
  | [], _, _, _, h, hframe => by
      have hsame : ρ.SameSession ⟨⟨_, g⟩, frame⟩ ⟨⟨_, g⟩, frame⟩ := ⟨⟨h, rfl⟩, hframe⟩
      exact hsame.indistinguishable hnames
  | d :: rest, s, s', hreadable, h, hframe => by
      obtain ⟨hd, hrest⟩ := List.forall_mem_cons.mp hreadable
      exact indistinguishable_of_same hnames g rest (d.install frame s) (d.install frame s') hrest
        (h.install hnames hframe hd) (hframe.mono (d.extends_install frame s))

theorem indistinguishable_of_perm {defs defs' : List Procedure} (hperm : defs.Perm defs')
    {s : Store} (hs : identity.SameStore s s) {frame : FrameId} (hframe : frame < s.frames.size)
    (g : Guard) (hnames : (defs.map name).Nodup) (hreadable : ∀ d ∈ defs, d.form.Readable) :
      (Session.mk ⟨defs.foldl (install frame) s, g⟩ frame).Indistinguishable
        (Session.mk ⟨defs'.foldl (install frame) s, g⟩ frame) := by
  -- the store changes along the permutation: what is defined first is there for the rest
  induction hperm generalizing s with
  | nil => exact .refl _
  | cons d hrest ih =>
      obtain ⟨hd, hreadable⟩ := List.forall_mem_cons.mp hreadable
      have hext := d.extends_install frame s
      have hs' := hs.install rfl ⟨hframe, rfl⟩ hd
      exact ih (s := d.install frame s) hs' (Nat.lt_of_lt_of_le hframe hext.frames)
        (List.nodup_cons.mp hnames).2 hreadable
  | swap d d' rest =>
      obtain ⟨hd', hreadable⟩ := List.forall_mem_cons.mp hreadable
      obtain ⟨hd, hrest⟩ := List.forall_mem_cons.mp hreadable
      have hne : d'.name ≠ d.name := fun heq =>
        (List.nodup_cons.mp hnames).1 (heq ▸ List.mem_cons_self)
      have hext := trans_of Store.Extends (d'.extends_install frame s) (d.extends_install frame _)
      exact indistinguishable_of_same (ρ := transposed s.codes.size) rfl g rest
        (d.install frame (d'.install frame s)) (d'.install frame (d.install frame s)) hrest
        (hs.install_install hne hframe hd' hd) ⟨Nat.lt_of_lt_of_le hframe hext.frames, rfl⟩
  | trans hfirst _ ih ih' =>
      refine (ih hs hframe hnames hreadable).trans (ih' hs hframe ?_ ?_)
      · exact (hfirst.map name).nodup_iff.mp hnames
      · exact fun d hd => hreadable d (hfirst.mem_iff.mpr hd)

/-- Definitions of procedures succeed. -/
theorem evalForms_definitions {s : State} (hroom : 2 ≤ s.guard.room) (frame : FrameId)
    (defs : List Procedure) :
    ∃ v, (Session.mk s frame).evalForms (defs.map form) =
      (.ok v, ⟨⟨defs.foldl (install frame) s.store, s.guard⟩, frame⟩) := by
  obtain ⟨store, g⟩ := s
  obtain ⟨v, hyields⟩ := yields_forms frame defs .nil store
  refine ⟨v, ?_⟩
  simp only [Session.evalForms, hyields g hroom]

end Procedure

/-- **Definitions in any order.** In a reachable state with room for two levels of nesting some
procedures are defined, under names that are all different, in a frame that is there. In whatever
order this is done it succeeds, and no programs that are run afterwards show a difference. -/
theorem definitions_in_any_order {s : State} (hs : s.Reachable) {frame : FrameId}
    (hframe : frame < s.store.frames.size) (hroom : 2 ≤ s.guard.room)
    {defs defs' : List Procedure} (hperm : defs.Perm defs')
    (hnames : (defs.map Procedure.name).Nodup) (hreadable : ∀ d ∈ defs, d.form.Readable) :
    let session : Session := ⟨s, frame⟩
    let first := session.evalForms (defs.map Procedure.form)
    let second := session.evalForms (defs'.map Procedure.form)
    (∃ v, first.1 = .ok v) ∧ (∃ v, second.1 = .ok v) ∧
      ∀ codes : List String,
        (second.2.runAll codes).1.map shown = (first.2.runAll codes).1.map shown := by
  intro session first second
  obtain ⟨v, hfirst⟩ := Procedure.evalForms_definitions hroom frame defs
  obtain ⟨w, hsecond⟩ := Procedure.evalForms_definitions hroom frame defs'
  refine ⟨⟨v, congrArg Prod.fst hfirst⟩, ⟨w, congrArg Prod.fst hsecond⟩, ?_⟩
  simp only [first, second, session, hfirst, hsecond]
  exact Procedure.indistinguishable_of_perm hperm hs.closed.store hframe s.guard hnames hreadable

/-- Two procedures that call each other, one of which takes the name of a primitive. -/
theorem definitions_of_two :
    let skip : Procedure := ⟨"skip", ["l"], by decide,
      .list [.sym "if", .list [.sym "null?", .sym "l"], .sym "skip",
        .list [.sym "car", .list [.sym "cdr", .sym "l"]]], []⟩
    let car : Procedure := ⟨"car", [], by decide, .list [.sym "skip", .const .nil], [.sym "cdr"]⟩
    let session := Session.start 9
    let first := session.evalForms ([skip, car].map Procedure.form)
    let second := session.evalForms ([car, skip].map Procedure.form)
    (∃ v, first.1 = .ok v) ∧ (∃ v, second.1 = .ok v) ∧
      ∀ codes : List String,
        (second.2.runAll codes).1.map shown = (first.2.runAll codes).1.map shown := by
  intro skip car session
  have hparse : parse 9 "(define skip (lambda (l) (if (null? l) skip (car (cdr l)))))
      (define car (lambda () (skip ()) cdr))".toList = .ok ([skip, car].map Procedure.form) := by
    decide +kernel
  exact definitions_in_any_order (.session (.initial 9)) (by decide) (by decide)
    (List.Perm.swap car skip []) (by decide) fun d hd =>
      (readableAt_of_parse hparse _ (List.mem_map_of_mem hd)).readable

end TableLisp

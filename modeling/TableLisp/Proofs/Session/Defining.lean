import TableLisp.Proofs.Session.Joining
import TableLisp.Proofs.Store.Lookup

/-!
# What a program has defined

A body that succeeds has evaluated each of its forms with success (`evalBody_mem`). Among lists that
begin with `define` only the definition of a symbol succeeds (`evaluate_definition`), and a dotted
list never does. A frame keeps the names that it binds, so all that the forms of a program define is
bound when the program has succeeded (`Session.defines_of_run`).
-/

namespace TableLisp

/-! ## Names that a frame binds -/

namespace Frame

theorem isSome_get?_iff {f : Frame} {name : String} :
    (f.get? name).isSome = true ↔ name ∈ f.names := by
  rw [Option.isSome_iff_ne_none, get?, ne_eq, List.lookup_eq_none_iff]
  simp [names]

end Frame

namespace Store

/-- A frame that is there binds a name itself. -/
def BindsIn (s : Store) (frame : FrameId) (name : String) : Prop :=
  ∃ f, s.frames[frame]? = some f ∧ name ∈ f.names

variable {s t : Store} {frame : FrameId} {name : String}

theorem ChangesOnly.bindsIn {defined : List String} (h : s.ChangesOnly frame defined t)
    (hs : s.BindsIn frame name) : t.BindsIn frame name := by
  obtain ⟨f, hf, hname⟩ := hs
  obtain ⟨g, hg, hgrows⟩ := h.own f hf
  exact ⟨g, hg, hgrows.kept.subset hname⟩

theorem bindsIn_define {f : Frame} (hf : s.frames[frame]? = some f) (name : String) (v : Value) :
    (s.define frame name v).BindsIn frame name := by
  refine ⟨f.define name v, getElem?_define hf name v, ?_⟩
  rw [← Frame.isSome_get?_iff, Frame.get?_define, if_pos rfl, Option.isSome_some]

theorem BindsIn.binds (h : s.BindsIn frame name) : s.binds frame name = true := by
  obtain ⟨f, hf, hname⟩ := h
  obtain ⟨outward, hscope⟩ := scope_eq_cons hf
  rw [Store.binds, lookup?, hscope, List.findSome?_isSome_iff]
  refine ⟨frame, List.mem_cons_self, ?_⟩
  rw [get?_eq hf]
  exact Frame.isSome_get?_iff.mpr hname

end Store

/-! ## Evaluations that succeed -/

namespace Eval

theorem bind_eq_ok {x : Eval α} {f : α → Eval β} {s t : State} {b : β}
    (h : (x >>= f) s = .ok b t) : ∃ a u, x s = .ok a u ∧ f a u = .ok b t := by
  simp only [Bind.bind, EStateM.bind] at h
  split at h
  · next a u hx => exact ⟨a, u, hx, h⟩
  · cases h

theorem nested_eq_ok {x : Eval α} {s t : State} {a : α} (h : nested x s = .ok a t) :
    ∃ g u, x { s with guard := g } = .ok a u ∧ t.store = u.store := by
  unfold nested at h
  split at h
  · cases h
  · next g _ =>
      split at h
      · next u hx =>
          cases h
          exact ⟨g, _, hx, rfl⟩
      · cases h

theorem Within.of_ok {R : State → State → Prop} {x : Eval α} (h : Within R x) {s t : State} {a : α}
    (hx : x s = .ok a t) : R s t := by
  have hafter := h s
  rwa [after, hx] at hafter

end Eval

open Eval

/-- A body that succeeds has evaluated each of its forms with success, at some moment between its
beginning and its end. -/
theorem evalBody_mem {R : State → State → Prop} [IsPreorder State R] {eval : Evaluator}
    {frame : FrameId} : ∀ {forms : List Form} {last v : Value} {s t : State} {form : Form},
    (∀ form ∈ forms, Within R (eval form frame)) → evalBody eval frame last forms s = .ok v t →
    form ∈ forms → ∃ a u w, R s u ∧ eval form frame u = .ok a w ∧ R w t
  | [], _, _, _, _, _, _, _, hmem => absurd hmem List.not_mem_nil
  | first :: rest, last, v, s, t, form, hR, h, hmem => by
      obtain ⟨hfirst, hrest⟩ := List.forall_mem_cons.mp hR
      rw [evalBody] at h
      obtain ⟨a, u, hx, hlast⟩ := bind_eq_ok h
      rcases List.mem_cons.mp hmem with rfl | hmem
      · have hlater : Within R (evalBody eval frame a rest) :=
          Within.compositional.evalBody eval eval frame a rest hrest
        exact ⟨a, s, u, refl_of R s, hx, hlater.of_ok hlast⟩
      · obtain ⟨b, u', w, hR', hform, hw⟩ := evalBody_mem hrest hlast hmem
        exact ⟨b, u', w, trans_of R (hfirst.of_ok hx) hR', hform, hw⟩

variable {s t : State} {frame : FrameId} {v : Value}

theorem evaluate_dotted (items : List Form) (tail : Form) :
    evaluate (.dotted items tail) frame s ≠ .ok v t := by
  intro h
  rw [evaluate_eq] at h
  obtain ⟨g, u, h, -⟩ := nested_eq_ok h
  cases h

theorem evaluate_confined : Confined evaluate :=
  fun form frame s => evalWith_confined s.guard.room form frame s

/-- A list that begins with `define` succeeds only if a symbol and one form follow, and leaves the
symbol bound. -/
theorem evaluate_definition {operands : List Form} {f : Frame}
    (hf : s.store.frames[frame]? = some f)
    (h : evaluate (.list (.sym SpecialForm.define.name :: operands)) frame s = .ok v t) :
    ∃ name value, operands = [.sym name, value] ∧ t.store.BindsIn frame name := by
  rw [evaluate_eq] at h
  obtain ⟨g, u, h, hstore⟩ := nested_eq_ok h
  have hspecial : specialHead? (.sym SpecialForm.define.name) = some .define :=
    SpecialForm.ofName?_name .define
  simp only [evalParts, hspecial] at h
  obtain ⟨_, hne, -⟩ | ⟨name, value, -, rfl⟩ | ⟨_, _, _, hne, -⟩ | ⟨_, _, _, hne, -⟩ |
    ⟨e, -, hrefused⟩ := evalSpecial_shapes .define operands
  · cases hne
  · refine ⟨name, value, rfl, ?_⟩
    obtain ⟨a, w, hvalue, h⟩ := bind_eq_ok h
    obtain ⟨f', hf', -⟩ := ((evaluate_confined value frame).of_ok hvalue).own f hf
    cases h
    rw [hstore]
    exact Store.bindsIn_define hf' name _
  · cases hne
  · cases hne
  · rw [hrefused] at h
    cases h

/-! ## Programs that succeed -/

namespace Session

/-- A program that succeeds has been read, holds no dotted list but as a part of other forms, and
has bound the name in each form of it that begins with `define`, which is a definition of that
name. -/
theorem defines_of_run {session later : Session} {code : String} {v : Value}
    (hglobal : session.global < session.state.store.frames.size)
    (h : session.run code = (.ok v, later)) :
    ∃ forms, parse session.state.guard.limit code.toList = .ok forms ∧
      (∀ items tail, Form.dotted items tail ∉ forms) ∧
      (∀ operands, Form.list (.sym SpecialForm.define.name :: operands) ∈ forms →
        ∃ name value, operands = [.sym name, value] ∧ later.binds name = true) := by
  cases hparse : parse session.state.guard.limit code.toList with
  | error e =>
      rw [run_of_unreadable hparse] at h
      cases h
  | ok forms =>
      rw [run_of_parse hparse, evalForms] at h
      cases hbody : evalBody evaluate session.global .nil forms session.state with
      | error e t =>
          rw [hbody] at h
          cases h
      | ok a t =>
          rw [hbody] at h
          cases h
          have hwithin := evaluate_confined.forms session.global (List.Subset.refl
            (Form.targetsAll forms))
          refine ⟨forms, rfl, fun items tail hmem => ?_, fun operands hmem => ?_⟩
          · obtain ⟨b, u, w, -, hform, -⟩ := evalBody_mem hwithin hbody hmem
            exact evaluate_dotted items tail hform
          · obtain ⟨b, u, w, hbefore, hform, hafter⟩ := evalBody_mem hwithin hbody hmem
            obtain ⟨f, hf, -⟩ := hbefore.own _ (Array.getElem?_eq_getElem hglobal)
            obtain ⟨name, value, rfl, hbinds⟩ := evaluate_definition hf hform
            exact ⟨name, value, rfl, (hafter.bindsIn hbinds).binds⟩

end Session

end TableLisp

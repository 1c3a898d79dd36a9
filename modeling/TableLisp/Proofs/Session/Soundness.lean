import TableLisp.Proofs.Eval.Soundness
import TableLisp.Proofs.Session.Depth
import TableLisp.Proofs.Session.Opening
import TableLisp.Proofs.Reader.RoundTrip

/-!
# Sessions in their worlds

A session that is opened without closures starts sound, whatever the store holds that it is opened
on: none of what was there can be reached from its global frame (`World.soundSession_openOn`). Every
program of covered forms keeps it sound, also one that fails half-way, and comes to a sound value or
to an error about one (`World.SoundSession.run`). So everything that the session comes upon is sound
for the world of what it has been given (`World.sound_runAll`).
-/

namespace TableLisp

/-- Whether an atom is in one of the forms that a program is read as. -/
def OccursIn (limit : Int) (code : String) (a : Value) : Prop :=
  ∃ forms, parse limit code.toList = .ok forms ∧ ∃ form ∈ forms, a ∈ form.toValue.leaves

/-- What a session is given: the atoms of the values that it is opened with, and those of its
programs. -/
def Given (limit : Int) (bindings : List (String × Value)) (codes : List String) : Set Value :=
  { a | (∃ binding ∈ bindings, a ∈ binding.2.leaves) ∨ ∃ code ∈ codes, OccursIn limit code a }

/-- The values that a session has come upon: those that its programs came to, and those that are
bound in its frames. -/
inductive ComeUpon (answers : List (Except RunError Value)) (session : Session) (v : Value) : Prop
  | answer (h : .ok v ∈ answers)
  | bound {frame : FrameId} {name : String} (hle : session.global ≤ frame)
      (h : session.state.store.get? frame name = some v)

namespace World

variable {ω : World}

/-- A session with the global frame of the world over a sound store. -/
structure SoundSession (ω : World) (session : Session) : Prop where
  global : session.global = ω.root
  store : ω.SoundStore session.state.store

/-- A program that can only be read as covered forms. -/
def CoversCode (ω : World) (limit : Int) (code : String) : Prop :=
  ∀ forms, parse limit code.toList = .ok forms → ∀ form ∈ forms, ω.Covers form

theorem coversCode_of {root : FrameId} {given : Set Value} {limit : Int} {code : String}
    (h : ∀ a, OccursIn limit code a → a ∈ given) : (World.of root given).CoversCode limit code := by
  intro forms hparse form hform
  refine Supply.covers_of (readableAt_of_parse hparse form hform).readable fun a ha => ?_
  exact h a ⟨forms, hparse, form, hform, ha⟩

namespace SoundSession

variable {session : Session}

theorem evalForms (h : ω.SoundSession session) {forms : List Form}
    (hforms : ∀ form ∈ forms, ω.Covers form) :
    let after := (session.evalForms forms).2
    ω.SoundSession after ∧ session.state.store.Extends after.state.store ∧
      (∀ v, (session.evalForms forms).1 = .ok v → ω.SoundValue after.state.store v) ∧
      ∀ e, (session.evalForms forms).1 = .error e → ω.SoundError after.state.store e := by
  have hbody := evalBody_sound evaluate_sound hforms h.store
    (h.global.symm ▸ h.store.inside_root) .nil
  simp only [Session.evalForms]
  generalize evalBody evaluate session.global .nil forms session.state = r at hbody
  cases hbody with
  | ok hv hstore hext =>
      refine ⟨⟨h.global, hstore⟩, hext, fun _ heq => Except.ok.inj heq ▸ hv, ?_⟩
      rintro e ⟨⟩
  | error he hstore hext =>
      refine ⟨⟨h.global, hstore⟩, hext, ?_, fun _ heq => Except.error.inj heq ▸ he⟩
      rintro v ⟨⟩

theorem run (h : ω.SoundSession session) {code : String}
    (hcode : ω.CoversCode session.state.guard.limit code) :
    let after := (session.run code).2
    ω.SoundSession after ∧ session.state.store.Extends after.state.store ∧
      (∀ v, (session.run code).1 = .ok v → ω.SoundValue after.state.store v) ∧
      ∀ e, (session.run code).1 = .error (.eval e) → ω.SoundError after.state.store e := by
  simp only [Session.run]
  cases hparse : parse session.state.guard.limit code.toList with
  | error e => exact ⟨h, refl_of Store.Extends _, nofun, nofun⟩
  | ok forms =>
      obtain ⟨hafter, hext, hanswer, hfailure⟩ := h.evalForms (hcode forms hparse)
      dsimp only
      cases hforms : (session.evalForms forms).1 with
      | ok w =>
          exact ⟨hafter, hext, fun _ heq => hanswer _ (Except.ok.inj heq ▸ hforms), nofun⟩
      | error e =>
          refine ⟨hafter, hext, nofun, fun _ heq => hfailure _ ?_⟩
          cases heq
          exact hforms

theorem runAll : ∀ {codes : List String} {session : Session}, ω.SoundSession session →
    (∀ code ∈ codes, ω.CoversCode session.state.guard.limit code) →
    let after := (session.runAll codes).2
    ω.SoundSession after ∧ session.state.store.Extends after.state.store ∧
      ∀ v, .ok v ∈ (session.runAll codes).1 → ω.SoundValue after.state.store v
  | [], _, h, _ => ⟨h, refl_of Store.Extends _, fun _ hmem => absurd hmem List.not_mem_nil⟩
  | code :: rest, session, h, hcodes => by
      obtain ⟨hcode, hrest⟩ := List.forall_mem_cons.mp hcodes
      obtain ⟨hfirst, hext, hanswer, -⟩ := h.run hcode
      rw [← Session.guard_run session code] at hrest
      obtain ⟨hlast, hext', hanswers⟩ := runAll hfirst hrest
      rw [Session.runAll_cons]
      refine ⟨hlast, trans_of Store.Extends hext hext', fun v hmem => ?_⟩
      rcases List.mem_cons.mp hmem with heq | hmem
      · exact (hanswer v heq.symm).mono hext'
      · exact hanswers v hmem

end SoundSession

/-- A session starts sound if it is opened with values that hold no closures, and atoms that have
been given. -/
theorem soundSession_openOn (store : Store) (limit : Int) {bindings : List (String × Value)}
    {given : Set Value} (hplain : ∀ binding ∈ bindings, binding.2.closures = [])
    (hgiven : ∀ binding ∈ bindings, ∀ a ∈ binding.2.leaves, a ∈ given) :
    (World.of store.frames.size given).SoundSession (Session.openOn store limit bindings) := by
  rw [Session.openOn, Session.newSession_defineAll]
  refine ⟨rfl, by simp [Store.withFrame, World.of], fun id f hle hf => ?_⟩
  obtain ⟨rfl, rfl⟩ : id = store.frames.size ∧ store.globalFrame bindings = f := by
    rw [Store.withFrame, Array.getElem?_push] at hf
    split at hf
    · next heq => exact ⟨heq, Option.some.inj hf⟩
    · next hne =>
        have hlt : id < store.frames.size := (Array.getElem?_eq_some_iff.mp hf).1
        exact absurd hle (Nat.not_le.mpr hlt)
  have houter := store.outer_globalFrame bindings
  refine ⟨fun name v hv => ?_, fun _ => rfl, fun o ho => ?_⟩
  · rcases Store.get?_globalFrame_eq_some hv with hmem | ⟨id, op, rfl⟩
    · exact .of_given (hplain _ hmem) (hgiven _ hmem)
    · exact .primitive id op
  · rw [houter] at ho
    cases ho

/-- A session that is opened without closures and runs programs is sound, and so is what it comes
upon, for the world of what it has been given and for every larger one. -/
theorem sound_runAll (store : Store) (limit : Int) {bindings : List (String × Value)}
    {codes : List String} {given : Set Value}
    (hplain : ∀ binding ∈ bindings, binding.2.closures = [])
    (hgiven : Given limit bindings codes ⊆ given) :
    let ω := World.of store.frames.size given
    let done := (Session.openOn store limit bindings).runAll codes
    ω.SoundSession done.2 ∧ ∀ v, ComeUpon done.1 done.2 v → ω.SoundValue done.2.state.store v := by
  intro ω done
  have hopen : ω.SoundSession (Session.openOn store limit bindings) :=
    soundSession_openOn store limit hplain fun binding hmem a ha =>
      hgiven (Or.inl ⟨binding, hmem, ha⟩)
  obtain ⟨hdone, -, hanswers⟩ := hopen.runAll fun code hcode => by
    rw [Session.guard_openOn]
    exact coversCode_of fun a ha => hgiven (Or.inr ⟨code, hcode, ha⟩)
  refine ⟨hdone, fun v hv => ?_⟩
  cases hv with
  | answer h => exact hanswers v h
  | bound hle h => exact hdone.store.get? (hdone.global ▸ hle) _ _ h

end World

end TableLisp

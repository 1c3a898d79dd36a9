import TableLisp.Proofs.Eval.Simulation
import TableLisp.Proofs.Session.Depth
import TableLisp.Proofs.Session.Opening

/-!
# Sessions side by side

Two sessions over states that are the same but for a correspondence, with global frames that stand
for each other, take every step alike: forms that are evaluated (`SameSession.evalForms`), and
programs that are run if no symbol is renamed (`SameSession.run`).

Sessions that are opened on one store have new global frames, and neither can reach a frame that was
there before, as long as no closure is bound. So it is enough that the new frames bind the same
(`sameSession_since`), whatever the store may hold.
-/

namespace TableLisp

/-- Whether a name is a symbol of the program that a source text is read as. -/
def Mentions (limit : Int) (code : String) (name : String) : Prop :=
  ∃ forms, parse limit code.toList = .ok forms ∧ name ∈ Form.symbolsAll forms

instance (limit : Int) (code name : String) : Decidable (Mentions limit code name) :=
  match h : parse limit code.toList with
  | .error _ => isFalse (by simp [Mentions, h])
  | .ok forms => decidable_of_iff (name ∈ Form.symbolsAll forms) (by simp [Mentions, h])

namespace Correspondence

/-! ## Steps of two sessions -/

/-- Two sessions that are the same but for a correspondence. -/
structure SameSession (ρ : Correspondence) (session session' : Session) : Prop where
  state : ρ.SameState session.state session'.state
  global : ρ.SameId session.state.store session.global session'.global

/-- Two answers that are the same but for a correspondence. -/
inductive SameAnswer (ρ : Correspondence) :
    Except RunError Value → Except RunError Value → Prop
  | value {n : Nat} {v v' : Value} (h : ρ.SameValue n v v') : SameAnswer ρ (.ok v) (.ok v')
  | unreadable (e : ReadError) : SameAnswer ρ (.error (.read e)) (.error (.read e))
  | failed {n : Nat} {e e' : EvalError} (h : ρ.SameError n e e') :
      SameAnswer ρ (.error (.eval e)) (.error (.eval e'))

variable {ρ : Correspondence} {session session' : Session}

/-- If neither a name nor the number of a closure changes, the two answers are one. -/
theorem SameAnswer.eq (hnames : ρ.apply = id) (hcodes : ∀ id id', ρ.code id id' → id' = id)
    {r r' : Except RunError Value} (h : ρ.SameAnswer r r') : r' = r := by
  cases h with
  | value h => rw [h.eq_rename hcodes, hnames, Value.rename_id]
  | unreadable e => rfl
  | failed h => rw [h.eq hnames hcodes]

namespace SameSession

theorem evalForms (h : ρ.SameSession session session') {forms : List Form}
    (hforms : ∀ form ∈ forms, ρ.Covers form) :
    let n := (session.evalForms forms).2.state.store.codes.size
    let forms' := forms.map (Form.rename ρ.apply)
    ρ.SameExcept n (ρ.SameValue n) (session.evalForms forms).1 (session'.evalForms forms').1 ∧
      ρ.SameSession (session.evalForms forms).2 (session'.evalForms forms').2 := by
  have hbody := evalBody_alike evaluate_same hforms h.state h.global .nil
  simp only [Session.evalForms]
  generalize evalBody evaluate session.global .nil forms session.state = r at hbody
  generalize evalBody evaluate session'.global .nil (forms.map (Form.rename ρ.apply))
    session'.state = r' at hbody
  cases hbody with
  | ok hv hstate hext => exact ⟨.ok hv, hstate, h.global.mono hext⟩
  | error he hstate hext => exact ⟨.error he, hstate, h.global.mono hext⟩

/-- Two sessions between which no symbol is renamed run the same program to the same end, if all
its symbols are known. -/
theorem run (h : ρ.SameSession session session') (hnames : ρ.apply = id) {code : String}
    (hvisible : ∀ a, Mentions session.state.guard.limit code a → a ∈ ρ.visible) :
    ρ.SameAnswer (session.run code).1 (session'.run code).1 ∧
      ρ.SameSession (session.run code).2 (session'.run code).2 := by
  simp only [Session.run, h.state.guard]
  cases hparse : parse session.state.guard.limit code.toList with
  | error e => exact ⟨.unreadable e, h⟩
  | ok forms =>
      have hforms : ∀ form ∈ forms, ρ.Covers form := fun form hform =>
        ⟨(readableAt_of_parse hparse form hform).readable, fun a ha =>
          hvisible a ⟨forms, hparse, Form.mem_symbolsAll.mpr ⟨form, hform, ha⟩⟩⟩
      obtain ⟨hanswer, hafter⟩ := h.evalForms hforms
      rw [hnames, Form.map_rename_id] at hanswer hafter
      refine ⟨?_, hafter⟩
      dsimp only
      generalize (session.evalForms forms).1 = r at hanswer
      generalize (session'.evalForms forms).1 = r' at hanswer
      cases hanswer with
      | ok hv => exact .value hv
      | error he => exact .failed he

theorem runAll (hnames : ρ.apply = id) : ∀ {codes : List String} {session session' : Session},
    ρ.SameSession session session' →
      (∀ code ∈ codes, ∀ a, Mentions session.state.guard.limit code a → a ∈ ρ.visible) →
      List.Forall₂ ρ.SameAnswer (session.runAll codes).1 (session'.runAll codes).1
  | [], _, _, _, _ => .nil
  | code :: rest, session, session', h, hvisible => by
      obtain ⟨hfirst, hlater⟩ := List.forall_mem_cons.mp hvisible
      obtain ⟨hanswer, hafter⟩ := h.run hnames hfirst
      rw [Session.runAll_cons, Session.runAll_cons]
      refine .cons hanswer (runAll hnames hafter ?_)
      rw [Session.guard_run]
      exact hlater

end SameSession

/-! ## New sessions -/

/-- Without closures among the names that a global frame is given, it binds the same as itself. -/
theorem rel_globalFrame {n : Nat} (s : Store) {bindings : List (String × Value)} {a : String}
    (hplain : ∀ v, (a, v) ∈ bindings → v.closures = []) :
    Option.Rel (ρ.SameValue n) ((s.globalFrame bindings).get? a)
      ((s.globalFrame bindings).get? a) := by
  cases hv : (s.globalFrame bindings).get? a with
  | none => exact .none
  | some v =>
      refine .some (.of_closures_eq_nil ?_)
      rcases Store.get?_globalFrame_eq_some hv with hmem | ⟨id, op, rfl⟩
      · exact hplain v hmem
      · rfl

/-- Two sessions start the same on states that are the same, if their global frames bind the
same. -/
theorem sameSession_newSession {s s' : State} (h : ρ.SameState s s')
    {bindings bindings' : List (String × Value)}
    (hbound : ∀ a a', ρ.Name a a' → Option.Rel (ρ.SameValue s.store.codes.size)
      ((s.store.globalFrame bindings).get? a) ((s'.store.globalFrame bindings').get? a')) :
    ρ.SameSession (s.newSession.defineAll bindings) (s'.newSession.defineAll bindings') := by
  have hframe (t t' : Store) (bindings : List (String × Value)) :
      t.withFrame (t'.globalFrame bindings) =
        (t.newFrame (t'.globalFrame bindings).bindings none).2 := by
    rw [← t'.outer_globalFrame bindings]
    rfl
  have hstore := h.store.withPrimitives (s.store.primitives + Builtin.all.length)
    (s'.store.primitives + Builtin.all.length)
  rw [Session.newSession_defineAll, Session.newSession_defineAll, hframe, hframe]
  exact ⟨⟨hstore.newFrame .none hbound, h.guard⟩, hstore.sameId_newFrame _ none⟩

/-- The correspondence of stores that come from one store: what was made there has no part in it,
and what is made later keeps its number. -/
def since (store : Store) (names : Renaming) : Correspondence where
  toRenaming := names
  frame id id' := store.frames.size ≤ id ∧ id' = id
  code id id' := store.codes.size ≤ id ∧ id' = id
  frame_unique := ⟨fun _ _ _ h h' => h.2.symm.trans h'.2, fun _ _ _ h h' => h.2.trans h'.2.symm⟩
  code_unique := ⟨fun _ _ _ h h' => h.2.symm.trans h'.2, fun _ _ _ h h' => h.2.trans h'.2.symm⟩

theorem since_code {store : Store} {names : Renaming} (id id' : Nat)
    (h : (since store names).code id id') : id' = id := h.2

/-- Nothing that was made in the store corresponds to anything. -/
theorem sameStore_since (store : Store) (names : Renaming) :
    (since store names).SameStore store store where
  nextFrame _ := ⟨Nat.le_add_right .., rfl⟩
  nextCode _ := ⟨Nat.le_add_right .., rfl⟩
  frames h hlt := absurd hlt (Nat.not_lt.mpr h.1)
  codes h hlt := absurd hlt (Nat.not_lt.mpr h.1)

/-- Two sessions on one state start the same if they bind the same under corresponding names, and
no closure. -/
theorem sameSession_since (s : State) (names : Renaming)
    {bindings bindings' : List (String × Value)}
    (hbound : ∀ a a', names.Name a a' →
      (s.store.globalFrame bindings').get? a' = (s.store.globalFrame bindings).get? a)
    (hplain : ∀ binding ∈ bindings, binding.1 ∈ names.visible → binding.2.closures = []) :
    (since s.store names).SameSession (s.newSession.defineAll bindings)
      (s.newSession.defineAll bindings') := by
  refine sameSession_newSession ⟨sameStore_since s.store names, rfl⟩ fun a a' ha => ?_
  rw [hbound a a' ha]
  exact rel_globalFrame s.store fun v hmem => hplain _ hmem ha.1

end Correspondence

end TableLisp

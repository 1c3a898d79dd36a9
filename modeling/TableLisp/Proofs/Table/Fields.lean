import TableLisp.Proofs.Eval.Depth
import TableLisp.Table.Display

/-!
# Fields found

A field of a row is looked for in two ways: a program calls `assoc` on the tail of the row, and the
display walks along the tail itself. Both come to the first element that is a pair headed by the
name of the field (`Builtin.associate_eq_pairFor`, `Value.field?_eq_pairFor`). Nothing else in the row
matters to either of them: elements that are no pairs, other heads, and what comes after the entry.

They part only where there is no entry. Then the display shows nothing, while `assoc` has come to
the end of the tail and refuses one that is no list.
-/

namespace TableLisp

/-! ## The first entry of a key -/

namespace Value

/-- Whether an element of an association list is an entry of a key. -/
def isHeadedBy (v key : Value) : Bool :=
  match v with
  | .pair head _ => head = key
  | _ => false

theorem isHeadedBy_pair {head tail key : Value} :
    (pair head tail).isHeadedBy key = true ↔ head = key :=
  decide_eq_true_iff

theorem not_isHeadedBy_of_atom {v : Value} (h : ∀ head tail, v ≠ pair head tail) (key : Value) :
    ¬ v.isHeadedBy key = true := by
  cases v with
  | pair head tail => exact absurd rfl (h head tail)
  | _ => exact Bool.false_ne_true

/-- The first entry of a key on the spine of an association list. -/
def pairFor? (alist key : Value) : Option Value :=
  alist.elements.find? fun element => element.isHeadedBy key

theorem pairFor?_of_headed {head key : Value} (h : head.isHeadedBy key = true) (tail : Value) :
    (pair head tail).pairFor? key = some head :=
  List.find?_cons_of_pos h

theorem pairFor?_of_not_headed {head key : Value} (h : ¬ head.isHeadedBy key = true)
    (tail : Value) : (pair head tail).pairFor? key = tail.pairFor? key :=
  List.find?_cons_of_neg h

theorem pairFor?_atom {v : Value} (h : ∀ head tail, v ≠ pair head tail) (key : Value) :
    v.pairFor? key = none := by
  cases v with
  | pair head tail => exact absurd rfl (h head tail)
  | _ => rfl

/-- An entry of a key is a pair with the key in front. -/
theorem eq_pair_of_pairFor? {alist key entry : Value} (h : alist.pairFor? key = some entry) :
    ∃ v, entry = .pair key v := by
  unfold pairFor? at h
  have hheaded := List.find?_some h
  cases entry with
  | pair head v =>
      obtain rfl : head = key := isHeadedBy_pair.mp hheaded
      exact ⟨v, rfl⟩
  | _ => cases hheaded

end Value

/-! ## Two ways of looking -/

/-- A program finds the first entry of a key. Without one it has to come to the end of a list. -/
theorem Builtin.associate_eq_pairFor (key alist : Value) :
    associate key alist =
      match alist.pairFor? key with
      | some entry => .ok entry
      | none => if alist.isProper then .ok .nil else .error .notAssociation := by
  fun_induction associate key alist with
  | case1 k v rest h =>
      rw [Value.pairFor?_of_headed (Value.isHeadedBy_pair.mpr (Value.isEqual_iff.mp h))]
  | case2 k v rest h ih =>
      have hother : ¬ (Value.pair k v).isHeadedBy key = true := fun hheaded =>
        h (Value.isEqual_iff.mpr (Value.isHeadedBy_pair.mp hheaded))
      rw [Value.pairFor?_of_not_headed hother]
      exact ih
  | case3 entry rest hentry ih =>
      rw [Value.pairFor?_of_not_headed (Value.not_isHeadedBy_of_atom hentry key)]
      exact ih
  | case4 => rfl
  | case5 atom _ hatom hnil =>
      have himproper : atom.isProper = false := by
        cases atom with
        | pair head tail => exact absurd rfl (hatom head tail)
        | nil => exact absurd rfl hnil
        | _ => rfl
      rw [Value.pairFor?_atom hatom, himproper]
      rfl

/-- The display finds what the first entry of a name holds, whatever the list ends in. -/
theorem Value.field?_eq_pairFor (name : String) (alist : Value) :
    alist.field? name =
      match alist.pairFor? (.sym name) with
      | some (.pair _ v) => some v
      | _ => none := by
  fun_induction field? name alist with
  | case1 v rest => rw [pairFor?_of_headed (isHeadedBy_pair.mpr rfl)]
  | case2 key v rest h ih =>
      rw [pairFor?_of_not_headed (mt isHeadedBy_pair.mp h)]
      exact ih
  | case3 entry rest hentry ih =>
      rw [pairFor?_of_not_headed (not_isHeadedBy_of_atom hentry _)]
      exact ih
  | case4 atom _ hatom => rw [pairFor?_atom hatom]

/-- **One entry for the program and the display.** In whatever state `assoc` is called, if the tail
of a row has an entry of a name on its spine, then `assoc` yields the first one and the display
shows what it holds, or fails if that cannot be written. Otherwise the display shows nothing, and
`assoc` yields `nil` if the tail is a list and fails with a type error if it is not. -/
theorem field_lookup_agrees (number : Nat) (caller : FrameId) (s : State) (id alist : Value)
    (name : String) :
    let found := applyValue (.primitive number .assoc) [.sym name, alist] caller s
    let shown := (Value.pair id alist).fieldText? name
    match alist.pairFor? (.sym name) with
    | some entry => ∃ v, entry = .pair (.sym name) v ∧
        found = .ok entry s ∧ shown = v.displayText.map some
    | none => shown = .ok none ∧
        if alist.isProper then found = .ok .nil s
        else ∃ e, found = .error e s ∧ e.kind = .type := by
  intro found shown
  have hfound : found = Eval.ofExcept (Builtin.associate (.sym name) alist) s := by
    simp only [found]
    rw [applyValue_eq]
    rfl
  have hshown : shown = (alist.field? name).mapM Value.displayText := rfl
  rw [Builtin.associate_eq_pairFor] at hfound
  rw [Value.field?_eq_pairFor] at hshown
  cases hentry : alist.pairFor? (.sym name) with
  | some entry =>
      obtain ⟨v, rfl⟩ := Value.eq_pair_of_pairFor? hentry
      rw [hentry] at hfound hshown
      exact ⟨v, rfl, hfound, hshown⟩
  | none =>
      simp only [hentry] at hfound hshown
      refine ⟨hshown, ?_⟩
      split at hfound
      · next hproper =>
          rw [if_pos hproper]
          exact hfound
      · next himproper =>
          rw [if_neg himproper]
          exact ⟨.notAssociation, hfound, rfl⟩

end TableLisp

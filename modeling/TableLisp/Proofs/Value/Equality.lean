import Mathlib.Data.List.Forall2
import TableLisp.Store

/-!
# What equality tells apart

Two values are equal exactly if they have one structure (`Value.Same`): atoms of one kind that hold
the same, one procedure, or pairs with equal heads and equal tails. So equality is an equivalence,
and chains of pairs are equal if they have equal elements, one for one, and equal terminals
(`Value.same_iff_elements`). Equal values have one text (`equality_is_structural`).

A procedure has a number that no other has, since every procedure takes the next one when it is
made. So two closures are equal only if they are one.
-/

namespace TableLisp

namespace Value

/-! ## Structure -/

/-- Two values of one structure. -/
inductive Same : Value → Value → Prop
  | nil : Same .nil .nil
  | bool (b : Bool) : Same (.bool b) (.bool b)
  | int (n : Int) : Same (.int n) (.int n)
  | str (text : String) : Same (.str text) (.str text)
  | sym (name : String) : Same (.sym name) (.sym name)
  | pair {head head' tail tail' : Value} (hhead : Same head head') (htail : Same tail tail') :
      Same (.pair head tail) (.pair head' tail')
  | closure (id : Nat) (formals : List String) : Same (.closure id formals) (.closure id formals)
  | primitive (id : Nat) (op : Builtin) : Same (.primitive id op) (.primitive id op)

theorem Same.refl (v : Value) : Same v v := by
  induction v with
  | pair head tail ihhead ihtail => exact .pair ihhead ihtail
  | _ => constructor

theorem same_iff_eq {a b : Value} : Same a b ↔ a = b := by
  constructor
  · intro h
    induction h with
    | pair _ _ ihhead ihtail => rw [ihhead, ihtail]
    | _ => rfl
  · rintro rfl
    exact .refl a

theorem isEqual_iff_same {a b : Value} : a.isEqual b = true ↔ Same a b :=
  isEqual_iff.trans same_iff_eq.symm

/-! ## Chains of pairs -/

/-- Along two chains of pairs, equality goes element by element up to the terminals. -/
theorem same_iff_elements {a b : Value} :
    Same a b ↔ List.Forall₂ Same a.elements b.elements ∧ Same a.terminal b.terminal := by
  constructor
  · intro h
    induction h with
    | pair hhead _ _ ihtail => exact ⟨.cons hhead ihtail.1, ihtail.2⟩
    | _ => exact ⟨.nil, by constructor⟩
  · rintro ⟨helements, hterminal⟩
    rw [← chain_elements a, ← chain_elements b]
    generalize a.elements = heads at helements
    generalize b.elements = heads' at helements
    induction helements with
    | nil => exact hterminal
    | cons hhead _ ih => exact .pair hhead ih

end Value

/-! ## Equality -/

/-- **Equality is structural.** Equality of values is an equivalence. It holds exactly between
values of one structure, so along two chains of pairs exactly if their elements are equal, one for
one, and what they end in. Closures that are equal were made at one time, and so were primitives.
Equal values are of one kind and have one text. -/
theorem equality_is_structural :
    Equivalence (fun a b : Value => a.isEqual b = true) ∧
    (∀ a b : Value, a.isEqual b = true ↔ a.Same b) ∧
    (∀ a b : Value, a.isEqual b = true ↔
      List.Forall₂ Value.Same a.elements b.elements ∧ a.terminal.Same b.terminal) ∧
    (∀ (s t : Store) (formals formals' : List String) (code code' : Code),
      (s.newClosure formals code).1.isEqual (t.newClosure formals' code').1 = true →
        s.codes.size = t.codes.size) ∧
    (∀ (s t : Store) (op op' : Builtin),
      (s.newPrimitive op).1.isEqual (t.newPrimitive op').1 = true → s.primitives = t.primitives) ∧
    ∀ a b : Value, a.isEqual b = true → a.kind = b.kind ∧ a.text = b.text := by
  refine ⟨⟨fun a => ?_, fun {a b} h => ?_, fun {a b c} h h' => ?_⟩, fun a b => ?_, fun a b => ?_,
    fun s t formals formals' code code' h => ?_, fun s t op op' h => ?_, fun a b h => ?_⟩
  · exact Value.isEqual_iff.mpr rfl
  · rw [Value.isEqual_iff] at h ⊢
    exact h.symm
  · rw [Value.isEqual_iff] at h h' ⊢
    exact h.trans h'
  · exact Value.isEqual_iff_same
  · rw [Value.isEqual_iff_same, Value.same_iff_elements]
  · exact (Value.closure.inj (Value.isEqual_iff.mp h)).1
  · exact (Value.primitive.inj (Value.isEqual_iff.mp h)).1
  · rw [Value.isEqual_iff.mp h]
    exact ⟨rfl, rfl⟩

/-- The pairs that a quoted list with a dot stands for, with a truth value and with a number at its
end, and two closures of one code. -/
theorem equality_of_quoted_list :
    let quoted (tail : Value) : Value :=
      (Form.dotted [.list [.const (.int 1)], .sym "a"] (.const tail)).toValue
    let made : Value := .pair (.pair (.int 1) .nil) (.pair (.sym "a") (.bool true))
    let code : Code := ⟨[.sym "x"], 0⟩
    let first := Store.empty.newClosure ["x"] code
    let second := first.2.newClosure ["x"] code
    (quoted (.bool true)).isEqual made = true ∧ (quoted (.bool true)).text = made.text ∧
      ¬ (quoted (.int 1)).isEqual made = true ∧ ¬ first.1.isEqual second.1 = true := by
  intro quoted made code first second
  obtain ⟨-, hsame, helements, hclosures, -, htext⟩ := equality_is_structural
  have hequal : (quoted (.bool true)).isEqual made = true := (hsame _ _).mpr (.refl made)
  refine ⟨hequal, (htext _ _ hequal).2, fun h => ?_, fun h => ?_⟩
  · obtain ⟨-, hterminal⟩ := (helements _ _).mp h
    cases hterminal
  · cases hclosures Store.empty first.2 ["x"] ["x"] code code h

end TableLisp

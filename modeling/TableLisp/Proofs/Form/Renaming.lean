import Mathlib.Data.Set.Function
import Mathlib.Logic.Relator
import TableLisp.Eval.Evaluator
import TableLisp.Proofs.Reader.RoundTrip

/-!
# Renaming the symbols of a form

`Form.rename f` puts `f a` for every symbol `a` that a form can look up, bind or define; what is
quoted is data and stays as it is. It has to know which operands are quoted and which are
parameters, and so follows the special forms: the head of a list is renamed as well, and the
operands as the special form of the head asks for (`Form.renameOperands`).

A `Renaming` is such an `f` together with the symbols that it is used on. It keeps these apart and
takes no special form for another, so it changes nothing about the shape of a form that consists of
them (`Renaming.Covers`).
-/

namespace TableLisp

namespace Form

/-! ## Symbols -/

mutual

/-- The symbols in a form, quoted or not. -/
def symbols : Form → List String
  | .const _ => []
  | .sym name => [name]
  | .list items => symbolsAll items
  | .dotted items tail => symbolsAll items ++ symbols tail

/-- The symbols in some forms. -/
def symbolsAll : List Form → List String
  | [] => []
  | form :: rest => symbols form ++ symbolsAll rest

end

theorem mem_symbolsAll {name : String} {forms : List Form} :
    name ∈ symbolsAll forms ↔ ∃ form ∈ forms, name ∈ form.symbols := by
  induction forms with
  | nil => simp [symbolsAll]
  | cons form rest ih => simp [symbolsAll, ih]

/-! ## Renaming -/

mutual

/-- Replaces the symbols of a form, but for what is quoted. -/
def rename (f : String → String) : Form → Form
  | .const v => .const v
  | .sym name => .sym (f name)
  | .list [] => .list []
  | .list (head :: operands) =>
    match specialHead? head with
    | some .quote => .list (rename f head :: operands)
    | some .lambda => .list (rename f head :: renameLambda f operands)
    | some .define | some .conditional | none => .list (rename f head :: renameAll f operands)
  | .dotted items tail => .dotted (renameAll f items) (rename f tail)

/-- Renames some forms. -/
def renameAll (f : String → String) : List Form → List Form
  | [] => []
  | form :: rest => rename f form :: renameAll f rest

/-- Renames the operands of a lambda. -/
def renameLambda (f : String → String) : List Form → List Form
  | [] => []
  | params :: body => renameParameters f params :: renameAll f body

/-- Renames a parameter list, which is no call or quotation whatever its first name is. -/
def renameParameters (f : String → String) : Form → Form
  | .const v => .const v
  | .sym name => .sym (f name)
  | .list items => .list (renameAll f items)
  | .dotted items tail => .dotted (renameAll f items) (rename f tail)

end

/-- Renames operands as the special form that takes them asks for, if there is one. -/
def renameOperands (f : String → String) : Option SpecialForm → List Form → List Form
  | some .quote, operands => operands
  | some .lambda, operands => renameLambda f operands
  | some .define, operands | some .conditional, operands | none, operands => operands.map (rename f)

theorem renameAll_eq_map (f : String → String) (forms : List Form) :
    renameAll f forms = forms.map (rename f) := by
  induction forms with
  | nil => rfl
  | cons form rest ih => rw [renameAll, ih, List.map_cons]

theorem rename_cons (f : String → String) (head : Form) (operands : List Form) :
    rename f (.list (head :: operands)) =
      .list (rename f head :: renameOperands f (specialHead? head) operands) := by
  rw [rename]
  rcases specialHead? head with _ | _ | _ | _ | _ <;> simp only [renameOperands, renameAll_eq_map]

theorem length_renameOperands (f : String → String) (special : Option SpecialForm)
    (operands : List Form) : (renameOperands f special operands).length = operands.length := by
  rcases special with _ | _ | _ | _ | _ <;> cases operands <;>
    simp [renameOperands, renameLambda, renameAll_eq_map]

mutual

theorem rename_id : ∀ form : Form, rename id form = form
  | .const _ => rfl
  | .sym _ => rfl
  | .list [] => rfl
  | .list (head :: operands) => by
      rw [rename, rename_id head, renameLambda_id operands, renameAll_id operands]
      split <;> rfl
  | .dotted items tail => by rw [rename, renameAll_id items, rename_id tail]

theorem renameAll_id : ∀ forms : List Form, renameAll id forms = forms
  | [] => rfl
  | form :: rest => by rw [renameAll, rename_id form, renameAll_id rest]

theorem renameLambda_id : ∀ operands : List Form, renameLambda id operands = operands
  | [] => rfl
  | params :: body => by rw [renameLambda, renameParameters_id params, renameAll_id body]

theorem renameParameters_id : ∀ params : Form, renameParameters id params = params
  | .const _ => rfl
  | .sym _ => rfl
  | .list items => by rw [renameParameters, renameAll_id items]
  | .dotted items tail => by rw [renameParameters, renameAll_id items, rename_id tail]

end

theorem map_rename_id (forms : List Form) : forms.map (rename id) = forms := by
  rw [← renameAll_eq_map, renameAll_id]

end Form

/-! ## Renamings -/

/-- A way to rename some symbols that keeps them apart and knows the special forms. -/
structure Renaming where
  visible : Set String
  apply : String → String
  injOn : Set.InjOn apply visible
  special : ∀ a ∈ visible, SpecialForm.ofName? (apply a) = SpecialForm.ofName? a

namespace Renaming

variable (ρ : Renaming)

/-- A form that the reader makes, all of whose symbols can be renamed. -/
structure Covers (form : Form) : Prop where
  readable : form.Readable
  symbols : ∀ a ∈ form.symbols, a ∈ ρ.visible

/-- A name and the one put for it. -/
def Name (a a' : String) : Prop :=
  a ∈ ρ.visible ∧ a' = ρ.apply a

variable {ρ}

theorem name_biUnique : Relator.BiUnique ρ.Name := by
  constructor
  · rintro a b c ⟨ha, rfl⟩ ⟨hb, heq⟩
    exact ρ.injOn ha hb heq
  · rintro a b c ⟨-, rfl⟩ ⟨-, rfl⟩
    rfl

theorem Covers.list {items : List Form} (h : ρ.Covers (.list items)) :
    ∀ item ∈ items, ρ.Covers item := by
  intro item hitem
  obtain ⟨hreadable, hsymbols⟩ := h
  cases hreadable with
  | list _ hitems =>
      refine ⟨hitems item hitem, fun a ha => hsymbols a ?_⟩
      rw [Form.symbols]
      exact Form.mem_symbolsAll.mpr ⟨item, hitem, ha⟩

theorem Covers.sym {name : String} (h : ρ.Covers (.sym name)) : ρ.Name name (ρ.apply name) :=
  ⟨h.symbols name (List.mem_singleton_self name), rfl⟩

theorem Covers.specialHead? {head : Form} (h : ρ.Covers head) :
    TableLisp.specialHead? (head.rename ρ.apply) = TableLisp.specialHead? head := by
  cases head with
  | sym name => exact ρ.special name h.sym.1
  | list items =>
      cases items with
      | nil => rfl
      | cons head operands => rw [Form.rename_cons]; rfl
  | const v => rfl
  | dotted items tail => rfl

end Renaming

end TableLisp

import TableLisp.Proofs.Reader.ValueText

/-!
# Lists merged with their tails

A dotted list whose tail is a list again is another spelling of a longer list: `(a . (b c))` and
`(a b c)` are two forms, and quoted they are one value. The text of a form keeps the two apart,
while a value is printed along its chain of pairs and shows the longer list.

`Form.flat` takes the one spelling to the other. It keeps the value (`Form.toValue_flat`), and its
forms are those in which every dot stands before an atom (`Form.IsSyntax.isFlat_flat`). On such
forms the text of the form and the text of the value are the same (`Form.IsFlat.prints`).
-/

namespace TableLisp

namespace Form

/-! ## Flat forms -/

/-- Some items in front of a tail: one list with the tail if this is a list itself. -/
def merge (items : List Form) : Form → Form
  | .const .nil => .list items
  | .list more => .list (items ++ more)
  | .dotted more tail => .dotted (items ++ more) tail
  | atom => .dotted items atom

mutual

/-- Merges every dotted list of a form with its tail, from the inside out. -/
def flat : Form → Form
  | .list items => .list (flatAll items)
  | .dotted items tail => merge (flatAll items) (flat tail)
  | atom => atom

/-- Merges the dotted lists of some forms with their tails. -/
def flatAll : List Form → List Form
  | [] => []
  | form :: rest => flat form :: flatAll rest

end

/-- Forms as syntax has them: a constant is an atom, and at least one item stands before a dot. -/
inductive IsSyntax : Form → Prop
  | const {v : Value} (h : v.kind ≠ .pair) : IsSyntax (.const v)
  | sym (name : String) : IsSyntax (.sym name)
  | list {items : List Form} (h : ∀ item ∈ items, IsSyntax item) : IsSyntax (.list items)
  | dotted {items : List Form} {tail : Form} (hne : items ≠ [])
      (h : ∀ item ∈ items, IsSyntax item) (htail : IsSyntax tail) : IsSyntax (.dotted items tail)

/-- Whether a form is an atom other than `nil`. -/
def isAtom : Form → Bool
  | .const .nil | .list _ | .dotted _ _ => false
  | .const _ | .sym _ => true

/-- Forms of syntax in which an atom other than `nil` stands behind every dot. -/
inductive IsFlat : Form → Prop
  | const {v : Value} (h : v.kind ≠ .pair) : IsFlat (.const v)
  | sym (name : String) : IsFlat (.sym name)
  | list {items : List Form} (h : ∀ item ∈ items, IsFlat item) : IsFlat (.list items)
  | dotted {items : List Form} {tail : Form} (hne : items ≠ [])
      (h : ∀ item ∈ items, IsFlat item) (htail : IsFlat tail) (hatom : tail.isAtom = true) :
      IsFlat (.dotted items tail)

/-! ## What flattening keeps and what it makes -/

theorem flatAll_eq_map (forms : List Form) : flatAll forms = forms.map flat := by
  induction forms with
  | nil => rfl
  | cons form rest ih => simp [flatAll, ih]

theorem toValue_merge (items : List Form) (tail : Form) :
    (merge items tail).toValue = .chain (values items) tail.toValue := by
  fun_cases merge items tail with
  | case1 => rfl
  | case2 more => simp [toValue, values_eq_map, Value.ofList, Value.chain]
  | case3 more tail => simp [toValue, values_eq_map, Value.chain]
  | case4 => rfl

mutual

/-- A form stands for the same value after its lists are merged with their tails. -/
theorem toValue_flat : ∀ form : Form, form.flat.toValue = form.toValue
  | .const _ | .sym _ => rfl
  | .list items => by rw [flat, toValue, toValue, values_flatAll items]
  | .dotted items tail => by
      rw [flat, toValue_merge, values_flatAll items, toValue_flat tail, toValue]

theorem values_flatAll : ∀ forms : List Form, values (flatAll forms) = values forms
  | [] => rfl
  | form :: rest => by rw [flatAll, values, values, toValue_flat form, values_flatAll rest]

end

theorem IsFlat.merge {items : List Form} (hne : items ≠ []) (hitems : ∀ item ∈ items, item.IsFlat)
    {tail : Form} (htail : tail.IsFlat) : (merge items tail).IsFlat := by
  have happend {more : List Form} (hmore : ∀ item ∈ more, item.IsFlat) :
      ∀ item ∈ items ++ more, item.IsFlat :=
    List.forall_mem_append.mpr ⟨hitems, hmore⟩
  fun_cases Form.merge items tail with
  | case1 => exact .list hitems
  | case2 more =>
      cases htail with
      | list hmore => exact .list (happend hmore)
  | case3 more tail =>
      cases htail with
      | dotted _ hmore htail hatom =>
          exact .dotted (List.append_ne_nil_of_left_ne_nil hne more) (happend hmore) htail hatom
  | case4 _ hnil hlist hdotted =>
      refine .dotted hne hitems htail ?_
      fun_cases isAtom tail with
      | case1 => exact absurd rfl hnil
      | case2 items => exact absurd rfl (hlist items)
      | case3 items tail => exact absurd rfl (hdotted items tail)
      | _ => rfl

/-- Flattening makes flat forms of syntax. -/
theorem IsSyntax.isFlat_flat {form : Form} (h : form.IsSyntax) : form.flat.IsFlat := by
  have hall {items : List Form} (hitems : ∀ item ∈ items, item.flat.IsFlat) :
      ∀ item ∈ flatAll items, item.IsFlat := by
    rw [flatAll_eq_map]
    exact List.forall_mem_map.mpr hitems
  induction h with
  | const h => exact .const h
  | sym name => exact .sym name
  | list _ ih => exact .list (hall ih)
  | @dotted items tail hne _ _ ih ihtail =>
      have hne' : flatAll items ≠ [] := by
        rw [flatAll_eq_map]
        exact mt List.map_eq_nil_iff.mp hne
      exact .merge hne' (hall ih) ihtail

/-! ## One text for the form and the value -/

/-- Items that have the texts of their values, in front of a form that prints as the rest of a
chain. -/
theorem Prints.chain {form : Form} {tail : Value} (hform : form.Prints tail) :
    ∀ {items : List Form}, (∀ item ∈ items, item.text = item.toValue.text) →
      (items.foldr Form.cons form).Prints (.chain (values items) tail)
  | [], _ => hform
  | _ :: _, hitems => by
      obtain ⟨hitem, hrest⟩ := List.forall_mem_cons.mp hitems
      exact (hform.chain hrest).cons hitem

/-- The empty list prints as `nil`. -/
theorem prints_list_nil : (list []).Prints .nil :=
  ⟨text_list_nil, (Prints.const (v := .nil) (by rintro ⟨⟩)).behind⟩

theorem foldr_cons_list (items : List Form) : items.foldr cons (list []) = list items := by
  induction items with
  | nil => rfl
  | cons item rest ih => rw [List.foldr_cons, ih, cons]

theorem foldr_cons_atom {atom : Form} (hatom : atom.isAtom = true) :
    ∀ {items : List Form}, items ≠ [] → items.foldr cons atom = dotted items atom
  | [item], _ => by
      cases atom with
      | const v => cases v <;> first | rfl | cases hatom
      | sym name => rfl
      | _ => cases hatom
  | item :: next :: rest, _ => by
      rw [List.foldr_cons, foldr_cons_atom hatom (List.cons_ne_nil next rest), cons]

/-- A flat form prints as the value that it stands for. -/
theorem IsFlat.prints {form : Form} (h : form.IsFlat) : form.Prints form.toValue := by
  induction h with
  | const h => exact .const h
  | sym name => exact .sym name
  | @list items _ ih =>
      have hchain := prints_list_nil.chain fun item hitem => (ih item hitem).text
      rwa [foldr_cons_list] at hchain
  | @dotted items tail hne _ _ hatom ih ihtail =>
      have hchain := ihtail.chain fun item hitem => (ih item hitem).text
      rwa [foldr_cons_atom hatom hne] at hchain

end Form

/-- **One text for a form and its value.** The value of a form prints as the form does once its
dotted lists are merged with those of their tails that are lists or `nil`. Merging leaves an atom
other than `nil` behind every dot and keeps the value. So where every dot stands before such an atom
to begin with, the form and its value have one text. -/
theorem text_of_quotation :
    (∀ form : Form, form.IsSyntax →
      form.toValue.text = form.flat.text ∧ form.flat.IsFlat ∧ form.flat.toValue = form.toValue) ∧
    (∀ form : Form, form.IsFlat → form.toValue.text = form.text) := by
  constructor
  · intro form hform
    have hflat := hform.isFlat_flat
    refine ⟨?_, hflat, form.toValue_flat⟩
    rw [hflat.prints.text, form.toValue_flat]
  · intro form hform
    exact hform.prints.text.symm

/-- A chain of dotted tails that ends in a list, and one that ends in a string. -/
theorem text_of_quoted_tails :
    let tailed : Form := .dotted [.sym "a"] (.dotted [.sym "b"] (.list [.const (.int 1)]))
    let form : Form := .dotted [tailed] (.dotted [.sym "c"] (.const (.str "s")))
    form.IsSyntax ∧ form.text = "((a . (b . (1))) . (c . \"s\"))" ∧
      form.flat.text = "((a b 1) c . \"s\")" ∧ form.toValue.text = form.flat.text ∧
      form.flat.IsFlat ∧ form.flat.toValue.text = form.flat.text := by
  intro tailed form
  have hone {item : Form} (h : item.IsSyntax) : ∀ f ∈ [item], f.IsSyntax :=
    List.forall_mem_singleton.mpr h
  have hne (item : Form) : [item] ≠ [] := List.cons_ne_nil item []
  have htailed : tailed.IsSyntax :=
    .dotted (hne _) (hone (.sym "a")) (.dotted (hne _) (hone (.sym "b"))
      (.list (hone (.const (by rintro ⟨⟩)))))
  have hform : form.IsSyntax :=
    .dotted (hne _) (hone htailed) (.dotted (hne _) (hone (.sym "c")) (.const (by rintro ⟨⟩)))
  obtain ⟨htext, hflat, -⟩ := text_of_quotation.1 form hform
  exact ⟨hform, by decide +kernel, by decide +kernel, htext, hflat,
    text_of_quotation.2 form.flat hflat⟩

end TableLisp

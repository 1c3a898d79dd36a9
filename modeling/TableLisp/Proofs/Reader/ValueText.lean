import TableLisp.Proofs.Reader.RoundTrip

/-!
# The text of a value

A value is printed along its chains of pairs, and what is printed is source text: that of the form
which the text would be read as (`Value.toForm`, `Value.text_toForm`). The form puts a chain into
one list, dotted if the chain does not end in `nil`, and quoting it gives the value back
(`Value.toValue_toForm`). So printing, reading and quoting compose to the identity on the values
that have a readable text.

How deep a text nests is counted on the text itself (`parenNesting`): the parentheses that are open
at once, those in strings left out. What a piece of text does to the count (`Parens.Nests`) composes
along a text, and for the whole text it is the nesting of the form (`Value.parenNesting_text`).
-/

namespace TableLisp

open Text

/-! ## Readable values -/

namespace Value

/-- A value whose text source text can spell. -/
inductive Readable : Value → Prop
  | nil : Readable .nil
  | int {n : Int} (h : inWordRange n = true) : Readable (.int n)
  | str {text : String} (h : '"' ∉ text.toList) : Readable (.str text)
  | sym {name : String} (h : isSymbolName name.toList = true) : Readable (.sym name)
  | pair {head tail : Value} (hhead : Readable head) (htail : Readable tail) :
      Readable (.pair head tail)

end Value

/-- A form in front of another one, in the list that both are read from. -/
def Form.cons (item : Form) : Form → Form
  | .const .nil => .list [item]
  | .list items => .list (item :: items)
  | .dotted items tail => .dotted (item :: items) tail
  | atom => .dotted [item] atom

/-- The form that the text of a value is read as. -/
def Value.toForm : Value → Form
  | .sym name => .sym name
  | .pair head tail => .cons head.toForm tail.toForm
  | atom => .const atom

/-! ## From a value to a form and back -/

namespace Form

theorem toValue_cons (item form : Form) :
    (cons item form).toValue = .pair item.toValue form.toValue := by
  fun_cases cons item form <;> rfl

theorem nesting_cons (item form : Form) :
    (cons item form).nesting = max (item.nesting + 1) form.nesting := by
  fun_cases cons item form with
  | case1 => simp [nesting, nestingAll]
  | case2 items | case3 items tail =>
      simp only [nesting, nestingAll]
      omega
  | case4 _ hnil hlist hdotted =>
      have hatom : form.nesting = 0 := by
        cases form with
        | const v => cases v <;> first | rfl | exact absurd rfl hnil
        | sym name => rfl
        | list items => exact absurd rfl (hlist items)
        | dotted items tail => exact absurd rfl (hdotted items tail)
      simp [nesting, nestingAll, hatom]

theorem Readable.cons {item form : Form} (hitem : item.Readable) (hform : form.Readable) :
    (Form.cons item form).Readable := by
  have hone : ∀ f ∈ [item], f.Readable := List.forall_mem_singleton.mpr hitem
  cases hform with
  | nil => exact .list (List.cons_ne_nil _ _) hone
  | int h => exact .dotted (List.cons_ne_nil _ _) hone (.int h)
  | str h => exact .dotted (List.cons_ne_nil _ _) hone (.str h)
  | sym h => exact .dotted (List.cons_ne_nil _ _) hone (.sym h)
  | list _ h => exact .list (List.cons_ne_nil _ _) (List.forall_mem_cons.mpr ⟨hitem, h⟩)
  | dotted _ h htail =>
      exact .dotted (List.cons_ne_nil _ _) (List.forall_mem_cons.mpr ⟨hitem, h⟩) htail

/-- One more form in front is one more text behind the parenthesis. -/
theorem text_cons_cons (item next form : Form) :
    ∃ body, (cons next form).text = "(" ++ body ∧
      (cons item (cons next form)).text = "(" ++ item.text ++ " " ++ body := by
  fun_cases cons next form with
  | case1 =>
      refine ⟨next.text ++ ")", ?_, ?_⟩ <;> simp [cons, text, textAll, String.append_assoc]
  | case2 items =>
      refine ⟨textAll (next :: items) ++ ")", ?_, ?_⟩ <;>
        simp [cons, text, textAll, String.append_assoc]
  | case3 items tail =>
      refine ⟨textAll (next :: items) ++ " . " ++ tail.text ++ ")", ?_, ?_⟩ <;>
        simp [cons, text, textAll, String.append_assoc]
  | case4 =>
      refine ⟨next.text ++ " . " ++ form.text ++ ")", ?_, ?_⟩ <;>
        simp [cons, text, textAll, String.append_assoc]

/-- A form that prints as a value does: it has the text of the value, and behind another form the
text goes on along the chain. -/
structure Prints (form : Form) (v : Value) : Prop where
  text : form.text = v.text
  behind (item : Form) :
    (cons item form).text = "(" ++ item.text ++ Value.tailWith Value.atomText v

namespace Prints

open Value

theorem const {v : Value} (h : v.kind ≠ .pair) : (const v).Prints v := by
  cases v with
  | pair head tail => exact absurd rfl h
  | _ =>
      refine ⟨rfl, fun item => ?_⟩
      simp [Form.cons, Form.text, textAll, tailWith, Value.text, textWith, atomText,
        String.append_assoc]

theorem sym (name : String) : (sym name).Prints (.sym name) := by
  refine ⟨?_, fun item => ?_⟩ <;>
    simp [Form.cons, Form.text, textAll, tailWith, Value.text, textWith, atomText,
      String.append_assoc]

/-- In front of a form that prints as the rest of a chain, a form prints as its element. -/
theorem cons {item form : Form} {head tail : Value} (hform : form.Prints tail)
    (hitem : item.text = head.text) : (Form.cons item form).Prints (.pair head tail) := by
  have htext : (Form.cons item form).text = (pair head tail).text := by
    rw [hform.behind, hitem, text_pair]
  refine ⟨htext, fun other => ?_⟩
  obtain ⟨body, hnext, hboth⟩ := text_cons_cons other item form
  have hbody : body = head.text ++ tailWith atomText tail := by
    rw [hform.behind, hitem, String.append_assoc] at hnext
    exact ((String.append_right_inj "(").mp hnext).symm
  rw [hboth, hbody]
  simp [tailWith, Value.text, String.append_assoc]

end Prints

end Form

namespace Value

theorem toValue_toForm (v : Value) : v.toForm.toValue = v := by
  induction v with
  | pair head tail ihead itail => rw [toForm, Form.toValue_cons, ihead, itail]
  | _ => rfl

theorem toForm_injective {v w : Value} (h : v.toForm = w.toForm) : v = w := by
  rw [← toValue_toForm v, h, toValue_toForm]

theorem Readable.toForm {v : Value} (h : v.Readable) : v.toForm.Readable := by
  induction h with
  | nil => exact .nil
  | int h => exact .int h
  | str h => exact .str h
  | sym h => exact .sym h
  | pair _ _ ihead itail => exact ihead.cons itail

theorem toForm_prints (v : Value) : v.toForm.Prints v := by
  induction v with
  | pair head tail ihead itail => exact itail.cons ihead.text
  | sym name => exact .sym name
  | _ => exact .const (by rintro ⟨⟩)

theorem text_toForm (v : Value) : v.toForm.text = v.text :=
  (toForm_prints v).text

end Value

/-! ## Parentheses -/

/-- How far the parentheses of a text have been counted: those that are open, the most that have
been open at once, and whether the place is inside a string. -/
structure Parens where
  opened : Nat
  most : Nat
  quoted : Bool

namespace Parens

def count (p : Parens) (c : Char) : Parens :=
  if c = '"' then { p with quoted := !p.quoted }
  else if p.quoted then p
  else if c = '(' then { p with opened := p.opened + 1, most := max p.most (p.opened + 1) }
  else if c = ')' then { p with opened := p.opened - 1 }
  else p

/-- Inside a string nothing counts but the end of it. -/
theorem count_quoted {p : Parens} (hp : p.quoted = true) {cs : List Char} (h : '"' ∉ cs) :
    cs.foldl count p = p := by
  induction cs with
  | nil => rfl
  | cons c cs ih =>
      obtain ⟨hc, hcs⟩ := not_or.mp (mt List.mem_cons.mpr h)
      have hstep : p.count c = p := by simp [count, hp, Ne.symm hc]
      rw [List.foldl_cons, hstep, ih hcs]

theorem count_atom (p : Parens) {cs : List Char} (h : ∀ c ∈ cs, isAtomChar c = true) :
    cs.foldl count p = p := by
  induction cs with
  | nil => rfl
  | cons c cs ih =>
      obtain ⟨hc, hcs⟩ := List.forall_mem_cons.mp h
      have hstep : p.count c = p := by
        simp only [isAtomChar, Bool.not_eq_true', Bool.or_eq_false_iff, beq_eq_false_iff_ne] at hc
        simp [count, hc]
      rw [List.foldl_cons, hstep, ih hcs]

/-- The text closes `closed` parentheses that were open before it, closes all that it opens, and
has at most `nesting` open at once beyond those that stay open. -/
def Nests (cs : List Char) (closed nesting : Nat) : Prop :=
  ∀ opened most : Nat, opened + closed ≤ most →
    cs.foldl count ⟨opened + closed, most, false⟩ = ⟨opened, max most (opened + nesting), false⟩

namespace Nests

variable {cs ds : List Char} {a b n m : Nat}

/-- What is open at the beginning does not count as opened. -/
theorem congr (h : Nests cs a n) (heq : max a n = max a m) : Nests cs a m := by
  intro opened most hmost
  have hmax : max most (opened + n) = max most (opened + m) := by omega
  rw [h _ _ hmost, hmax]

theorem append (h : Nests cs a n) (h' : Nests ds b m) :
    Nests (cs ++ ds) (a + b) (max (b + n) m) := by
  intro opened most hmost
  have hstart : opened + (a + b) = opened + b + a := by omega
  have hrest : opened + b ≤ max most (opened + b + n) := by omega
  have hmax : max (max most (opened + b + n)) (opened + m) = max most (opened + max (b + n) m) := by
    omega
  rw [List.foldl_append, hstart, h _ _ (by omega), h' _ _ hrest, hmax]

theorem parens (h : Nests cs 1 n) : Nests ('(' :: cs) 0 (max 1 n) := by
  intro opened most hmost
  have hopen : count ⟨opened + 0, most, false⟩ '(' = ⟨opened + 1, max most (opened + 1), false⟩ :=
    rfl
  have hmax : max (max most (opened + 1)) (opened + n) = max most (opened + max 1 n) := by omega
  rw [List.foldl_cons, hopen, h _ _ (by omega), hmax]

theorem close : Nests [')'] 1 0 := by
  intro opened most hmost
  have hmax : max most (opened + 0) = most := by omega
  rw [hmax]
  rfl

theorem of_unchanged (h : ∀ opened most, cs.foldl count ⟨opened, most, false⟩ =
    ⟨opened, most, false⟩) : Nests cs 0 0 := by
  intro opened most hmost
  have hmax : max most (opened + 0) = most := by omega
  rw [hmax]
  exact h opened most

theorem atom (h : ∀ c ∈ cs, isAtomChar c = true) : Nests cs 0 0 :=
  of_unchanged fun _ _ => count_atom _ h

theorem string (h : '"' ∉ cs) : Nests ('"' :: (cs ++ ['"'])) 0 0 := by
  refine of_unchanged fun opened most => ?_
  have hopen : count ⟨opened, most, false⟩ '"' = ⟨opened, most, true⟩ := rfl
  rw [List.foldl_cons, List.foldl_append, hopen, count_quoted rfl h]
  rfl

end Nests

end Parens

/-- The most parentheses of a text that are open at once, strings left out. -/
def parenNesting (cs : List Char) : Nat :=
  (cs.foldl Parens.count ⟨0, 0, false⟩).most

namespace Value

open Parens

/-- An atom other than `nil` opens nothing, neither on its own nor behind a dot. -/
theorem nests_atomText {v : Value} (h : Nests v.text.toList 0 0)
    (htail : tailWith atomText v = " . " ++ v.text ++ ")") :
    Nests v.text.toList 0 0 ∧ Nests (tailWith atomText v).toList 1 0 := by
  refine ⟨h, ?_⟩
  have hdot : Nests " . ".toList 0 0 := .of_unchanged fun _ _ => rfl
  rw [htail, String.toList_append, String.toList_append]
  exact ((hdot.append h).append .close).congr rfl

/-- The text of a value nests as deep as its form. The text behind the first element of a chain
closes one parenthesis more. -/
theorem nests_text {v : Value} (h : v.Readable) :
    Nests v.text.toList 0 v.toForm.nesting ∧
      Nests (tailWith atomText v).toList 1 v.toForm.nesting := by
  induction h with
  | nil => exact ⟨.parens .close, Nests.close.congr rfl⟩
  | int h =>
      refine nests_atomText (.atom fun c hc => ?_) rfl
      exact isAtomChar_of_mem_text hc
  | sym h =>
      refine nests_atomText ?_ (by simp [tailWith, text, textWith])
      rw [text_sym]
      exact .atom (isAtomChar_of_isSymbolName h)
  | @str text h =>
      refine nests_atomText ?_ (by simp [tailWith, Value.text, textWith])
      have htext : (str text).text.toList = '"' :: (text.toList ++ ['"']) := by
        simp [Value.text, textWith, atomText]
      rw [htext]
      exact .string h
  | @pair head tail _ _ ihead itail =>
      obtain ⟨hhead, -⟩ := ihead
      obtain ⟨-, htail⟩ := itail
      have hnesting : (pair head tail).toForm.nesting =
          max (head.toForm.nesting + 1) tail.toForm.nesting := Form.nesting_cons _ _
      have hinside := hhead.append htail
      rw [hnesting]
      constructor
      · have htext : (pair head tail).text.toList =
            '(' :: (head.text.toList ++ (tailWith atomText tail).toList) := by
          simp [text_pair]
        rw [htext]
        exact hinside.parens.congr (by omega)
      · have htext : (tailWith atomText (pair head tail)).toList =
            [' '] ++ (head.text.toList ++ (tailWith atomText tail).toList) := by
          simp [tailWith, text]
        have hblank : Nests [' '] 0 0 := .of_unchanged fun _ _ => rfl
        rw [htext]
        exact (hblank.append hinside).congr (by omega)

theorem parenNesting_text {v : Value} (h : v.Readable) :
    parenNesting v.text.toList = v.toForm.nesting := by
  obtain ⟨hnests, -⟩ := nests_text h
  have hcount := hnests 0 0 (Nat.le_refl 0)
  simp only [Nat.zero_add, Nat.zero_max] at hcount
  rw [parenNesting, hcount]

end Value

/-! ## Reading a quoted text -/

/-- A quote mark before the text of a form is one more level. -/
theorem parse_quoted {form : Form} (h : form.Readable) {limit : Int}
    (hlimit : (form.nesting : Int) < limit) :
    parse limit ("'" ++ form.text).toList = .ok [.quoted form] := by
  rw [parse_eq_ok_iff]
  have hlexes := h.spelled 1 endsAtom_nil
  have hmark : Lexes 0 ['\''] (form.text.toList ++ []) [⟨.quote, "'", 0⟩] := .quote 0 _
  have hlex : lex ("'" ++ form.text).toList = ⟨⟨.quote, "'", 0⟩ :: form.tokens 1, none⟩ := by
    have hwhole := (hmark.append hlexes) ("'" ++ form.text).toList []
    simpa [lex, lexFrom_nil] using hwhole
  rw [hlex]
  refine ⟨rfl, _, .single (.quote rfl (h.isDatum_tokens 1)), ?_⟩
  omega

namespace Value

theorem Readable.parse_quoted_text {v : Value} (h : v.Readable) {limit : Int}
    (hlimit : (parenNesting v.text.toList : Int) < limit) :
    parse limit ("'" ++ v.text).toList = .ok [.quoted v.toForm] := by
  rw [parenNesting_text h] at hlimit
  rw [← text_toForm]
  exact parse_quoted h.toForm hlimit

/-- Readable values of one text are one value: the text can be read, and what it is read as knows
the value. -/
theorem Readable.text_injective {v w : Value} (hv : v.Readable) (hw : w.Readable)
    (h : v.text = w.text) : v = w := by
  have hlimit : (parenNesting v.text.toList : Int) < parenNesting v.text.toList + 1 := by omega
  have hread := hv.parse_quoted_text hlimit
  rw [h] at hlimit hread
  rw [hw.parse_quoted_text hlimit] at hread
  have hforms : v.toForm = w.toForm := by simpa [Form.quoted] using hread.symm
  exact toForm_injective hforms

end Value

end TableLisp

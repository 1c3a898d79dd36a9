import TableLisp.Proofs.Reader.Lexing
import TableLisp.Proofs.Reader.Parsing

/-!
# Forms written and read

The reader builds only some of all forms: those of `Form.Readable`, whose constants and names can be
spelled in source text and whose lists are not empty. The text of such a form is lexed into tokens
that can be told from the form (`Form.tokens`, `Form.Readable.spelled`). They are a datum for it
(`Form.Readable.isDatum_tokens`), and its nesting (`Form.nesting`) is theirs. The tokens of another
spelling may nest deeper, never less deep (`IsDatum.readable`).

Together with the agreement of reader and grammar this makes writing and reading inverse to each
other on readable forms, at every limit.
-/

namespace TableLisp

open Text

/-! ## Readable forms -/

namespace Form

/-- A form that source text can spell. -/
inductive Readable : Form → Prop
  | nil : Readable (.const .nil)
  | int {n : Int} (h : inWordRange n = true) : Readable (.const (.int n))
  | str {text : String} (h : '"' ∉ text.toList) : Readable (.const (.str text))
  | sym {name : String} (h : isSymbolName name.toList = true) : Readable (.sym name)
  | list {items : List Form} (hne : items ≠ []) (h : ∀ item ∈ items, Readable item) :
      Readable (.list items)
  | dotted {items : List Form} {tail : Form} (hne : items ≠ [])
      (h : ∀ item ∈ items, Readable item) (htail : Readable tail) :
      Readable (.dotted items tail)

mutual

/-- How many lists lie around the innermost part of a form; the empty list counts as one. -/
def nesting : Form → Nat
  | .const .nil => 1
  | .const _ | .sym _ => 0
  | .list items => nestingAll items + 1
  | .dotted items tail => max (nestingAll items) (nesting tail) + 1

/-- The greatest nesting of some forms. -/
def nestingAll : List Form → Nat
  | [] => 0
  | form :: rest => max (nesting form) (nestingAll rest)

end

/-- Forms that source text can spell within a limit; one below zero allows as little as zero. -/
structure ReadableAt (limit : Int) (form : Form) : Prop where
  readable : form.Readable
  nesting_le : form.nesting ≤ limit.toNat

theorem nestingAll_le_iff {n : Nat} :
    ∀ {forms : List Form}, nestingAll forms ≤ n ↔ ∀ form ∈ forms, form.nesting ≤ n
  | [] => by simp [nestingAll]
  | form :: rest => by
      rw [nestingAll, Nat.max_le, nestingAll_le_iff, List.forall_mem_cons]

theorem textAll_eq_intercalate :
    ∀ forms : List Form, textAll forms = " ".intercalate (forms.map text)
  | [] => by simp [textAll]
  | [form] => by simp [textAll]
  | form :: next :: rest => by
      have hrest := textAll_eq_intercalate (next :: rest)
      rw [textAll, hrest]
      · simp [String.intercalate_cons_cons]
      · simp

/-! ## From a form to its tokens -/

mutual

/-- The tokens of the text of a form that stands at an offset. -/
def tokens (offset : Nat) : Form → List Token
  | .const .nil => [⟨.lparen, "(", offset⟩, ⟨.rparen, ")", offset + 1⟩]
  | .const (.int n) => [⟨.number, Numeral.text n, offset⟩]
  | .const v => [⟨.string, v.text, offset⟩]
  | .sym name => [⟨.symbol, name, offset⟩]
  | .list items =>
    ⟨.lparen, "(", offset⟩ ::
      (tokensAll (offset + 1) items ++ [⟨.rparen, ")", offset + 1 + (textAll items).length⟩])
  | .dotted items tail =>
    let dot := offset + 1 + (textAll items).length + 1
    ⟨.lparen, "(", offset⟩ ::
      (tokensAll (offset + 1) items ++ ⟨.dot, ".", dot⟩ ::
        (tokens (dot + 2) tail ++ [⟨.rparen, ")", dot + 2 + tail.text.length⟩]))

/-- The tokens of some forms that stand at an offset, one character between each two. -/
def tokensAll (offset : Nat) : List Form → List Token
  | [] => []
  | form :: rest => tokens offset form ++ tokensAll (offset + form.text.length + 1) rest

end

theorem isData_tokensAll : ∀ {forms : List Form},
    (∀ form ∈ forms, ∀ offset, IsDatum (form.tokens offset) form form.nesting) →
      ∀ offset, IsData (tokensAll offset forms) forms (nestingAll forms)
  | [], _, _ => .nil
  | form :: rest, h, offset => by
      obtain ⟨hform, hrest⟩ := List.forall_mem_cons.mp h
      exact .cons (hform offset) (isData_tokensAll hrest _)

/-- These tokens are a datum for the form. -/
theorem Readable.isDatum_tokens {form : Form} (h : form.Readable) (offset : Nat) :
    IsDatum (form.tokens offset) form form.nesting := by
  induction h generalizing offset with
  | nil => exact .empty rfl rfl
  | @int n h =>
      let t : Token := ⟨.number, Numeral.text n, offset⟩
      have ht : t.integer = n := Numeral.plainValue_text n
      have hdatum : IsDatum [t] _ 0 := .number rfl
      rwa [ht] at hdatum
  | @str text h =>
      let t : Token := ⟨.string, (Value.str text).text, offset⟩
      have ht : t.content = text := by
        simp [t, Token.content, Value.text, Value.textWith, Value.atomText]
      have hdatum : IsDatum [t] _ 0 := .string rfl
      rwa [ht] at hdatum
  | @sym name h => exact IsDatum.symbol (t := ⟨.symbol, name, offset⟩) rfl
  | list hne _ ih => exact .list rfl hne (isData_tokensAll ih _) rfl
  | dotted hne _ _ ih htail => exact .dotted rfl hne (isData_tokensAll ih _) rfl (htail _) rfl

/-! ## From a form to its text -/

/-- Wherever the text of a form stands in front of the end of an atom, it is lexed into the tokens
of the form. -/
def Spelled (form : Form) : Prop :=
  ∀ (offset : Nat) {rest : List Char}, EndsAtom rest →
    Lexes offset form.text.toList rest (form.tokens offset)

/-- Forms that are written one after the other, a blank between each two. -/
theorem lexes_intercalate {c : Char} (hc : isBlank c = true) : ∀ {forms : List Form},
    (∀ form ∈ forms, Spelled form) → ∀ (offset : Nat) {rest : List Char}, EndsAtom rest →
      Lexes offset ([c].intercalate (forms.map (·.text.toList))) rest (tokensAll offset forms)
  | [], _, offset, rest, _ => Lexes.nil offset rest
  | [form], h, offset, rest, hrest => by
      have hlexes := h form List.mem_cons_self offset hrest
      simpa [tokensAll] using hlexes
  | form :: next :: forms, h, offset, rest, hrest => by
      obtain ⟨hform, hforms⟩ := List.forall_mem_cons.mp h
      have hlater := lexes_intercalate hc hforms (offset + form.text.length + 1) hrest
      have hbetween := (Lexes.blank (offset + form.text.toList.length) hc _).append hlater
      rw [List.map_cons, List.map_cons, List.intercalate_cons_cons, List.append_assoc]
      exact (hform offset (endsAtom_cons (isAtomChar_of_isBlank hc) _)).append hbetween

theorem toList_textAll (forms : List Form) :
    (textAll forms).toList = [' '].intercalate (forms.map (·.text.toList)) := by
  rw [textAll_eq_intercalate, String.toList_intercalate, List.map_map]
  rfl

theorem lexes_textAll {forms : List Form} (h : ∀ form ∈ forms, Spelled form) (offset : Nat)
    {rest : List Char} (hrest : EndsAtom rest) :
    Lexes offset (textAll forms).toList rest (tokensAll offset forms) := by
  rw [toList_textAll]
  exact lexes_intercalate rfl h offset hrest

theorem lex_intercalate {c : Char} (hc : isBlank c = true) {forms : List Form}
    (h : ∀ form ∈ forms, Spelled form) :
    lex ([c].intercalate (forms.map (·.text.toList))) = ⟨tokensAll 0 forms, none⟩ := by
  have hlexes := lexes_intercalate hc h 0 endsAtom_nil
    ([c].intercalate (forms.map (·.text.toList))) []
  simpa [lex, lexFrom_nil] using hlexes

theorem Spelled.list {items : List Form} (h : ∀ item ∈ items, Spelled item) :
    Spelled (.list items) := by
  intro offset rest _
  have hclose : isAtomChar ')' = false := by decide
  have htext : (Form.list items).text.toList = ['('] ++ ((textAll items).toList ++ [')']) := by
    simp [text]
  rw [htext]
  exact (Lexes.lparen offset _).append
    ((lexes_textAll h _ (endsAtom_cons hclose rest)).append (Lexes.rparen _ rest))

theorem Spelled.dotted {items : List Form} {tail : Form} (h : ∀ item ∈ items, Spelled item)
    (htail : Spelled tail) : Spelled (.dotted items tail) := by
  intro offset rest _
  have hclose : isAtomChar ')' = false := by decide
  have hblank : isAtomChar ' ' = false := by decide
  have htext : (Form.dotted items tail).text.toList =
      ['('] ++ ((textAll items).toList ++
        ([' '] ++ (['.'] ++ ([' '] ++ (tail.text.toList ++ [')']))))) := by
    simp [text]
  rw [htext]
  exact (Lexes.lparen offset _).append ((lexes_textAll h _ (endsAtom_cons hblank _)).append
    ((Lexes.blank _ rfl _).append ((Lexes.dot _ (endsAtom_cons hblank _)).append
      ((Lexes.blank _ rfl _).append ((htail _ (endsAtom_cons hclose rest)).append
        (Lexes.rparen _ rest))))))

theorem Readable.spelled {form : Form} (h : form.Readable) : Spelled form := by
  induction h with
  | nil => exact fun offset rest _ => (Lexes.lparen offset _).append (Lexes.rparen _ rest)
  | int h =>
      intro offset rest hrest
      have hlexes := Lexes.numeral offset h hrest
      rwa [String.ofList_toList] at hlexes
  | @str text h =>
      intro offset rest _
      have hlexes := Lexes.string offset h rest
      have htext : (Value.str text).text.toList = '"' :: (text.toList ++ ['"']) := by
        simp [Value.text, Value.textWith, Value.atomText]
      rwa [← htext, String.ofList_toList] at hlexes
  | sym h =>
      intro offset rest hrest
      have hlexes := Lexes.symbol offset h hrest
      rwa [String.ofList_toList] at hlexes
  | list _ _ ih => exact .list ih
  | dotted _ _ _ ih htail => exact .dotted ih htail

end Form

/-! ## From tokens to a form -/

theorem isSymbolName_quote : isSymbolName SpecialForm.quote.name.toList = true := by
  decide

mutual

/-- A datum of well-spelled tokens stands for a readable form, which nests no deeper. -/
theorem IsDatum.readable : ∀ {ts : List Token} {form : Form} {n : Nat}, IsDatum ts form n →
    (∀ t ∈ ts, t.WellSpelled) → form.Readable ∧ form.nesting ≤ n
  | _, _, _, @IsDatum.number t ht, h => by
      have hspelled := h t List.mem_cons_self
      rw [Token.WellSpelled, ht] at hspelled
      exact ⟨.int hspelled, Nat.le_refl 0⟩
  | _, _, _, @IsDatum.symbol t ht, h => by
      have hspelled := h t List.mem_cons_self
      rw [Token.WellSpelled, ht] at hspelled
      exact ⟨.sym hspelled, Nat.le_refl 0⟩
  | _, _, _, @IsDatum.string t ht, h => by
      have hspelled := h t List.mem_cons_self
      rw [Token.WellSpelled, ht] at hspelled
      exact ⟨.str hspelled, Nat.le_refl 0⟩
  | _, _, _, @IsDatum.quote _ ts form n _ hdatum, h => by
      obtain ⟨hform, hn⟩ := hdatum.readable (List.forall_mem_cons.mp h).2
      have hitems : ∀ item ∈ [Form.sym SpecialForm.quote.name, form], item.Readable := by
        simpa using ⟨Form.Readable.sym isSymbolName_quote, hform⟩
      refine ⟨.list (List.cons_ne_nil _ _) hitems, ?_⟩
      simpa [Form.quoted, Form.nesting, Form.nestingAll] using hn
  | _, _, _, .empty _ _, _ => ⟨.nil, Nat.le_refl 1⟩
  | _, _, _, .list _ hne hdata _, h => by
      have hts := List.forall_mem_append.mp (List.forall_mem_cons.mp h).2
      obtain ⟨hitems, hn⟩ := hdata.readable hts.1
      exact ⟨.list hne hitems, Nat.succ_le_succ hn⟩
  | _, _, _, .dotted _ hne hdata _ htail _, h => by
      have hts := List.forall_mem_append.mp (List.forall_mem_cons.mp h).2
      have hus := List.forall_mem_append.mp (List.forall_mem_cons.mp hts.2).2
      obtain ⟨hitems, hn⟩ := hdata.readable hts.1
      obtain ⟨htail, hm⟩ := htail.readable hus.1
      refine ⟨.dotted hne hitems htail, ?_⟩
      rw [Form.nesting]
      omega
  | _, _, _, .loneTail _ _ htail _, h => by
      have hts := (List.forall_mem_cons.mp h).2
      have hus := List.forall_mem_append.mp (List.forall_mem_cons.mp hts).2
      obtain ⟨htail, hm⟩ := htail.readable hus.1
      exact ⟨htail, Nat.le_succ_of_le hm⟩

theorem IsData.readable : ∀ {ts : List Token} {forms : List Form} {n : Nat}, IsData ts forms n →
    (∀ t ∈ ts, t.WellSpelled) → (∀ form ∈ forms, form.Readable) ∧ Form.nestingAll forms ≤ n
  | _, _, _, .nil, _ => ⟨by simp, Nat.le_refl 0⟩
  | _, _, _, .cons hdatum hdata, h => by
      obtain ⟨hts, hus⟩ := List.forall_mem_append.mp h
      obtain ⟨hform, hn⟩ := hdatum.readable hts
      obtain ⟨hforms, hm⟩ := hdata.readable hus
      refine ⟨List.forall_mem_cons.mpr ⟨hform, hforms⟩, ?_⟩
      rw [Form.nestingAll]
      omega

end

/-! ## Reading a source -/

/-- A source is read exactly if it is lexed into data that nest within the limit. -/
theorem parse_eq_ok_iff {limit : Int} {source : List Char} {forms : List Form} :
    parse limit source = .ok forms ↔
      (lex source).failure = none ∧ ∃ n, IsData (lex source).tokens forms n ∧ n ≤ limit.toNat := by
  let s := TokenStream.ofSource source limit
  have hroom : Datum.levelsLeft s.limit s.depth = limit.toNat := Datum.levelsLeft_zero limit
  have hparse : parse limit source = .ok forms ↔
      s.forms.failure = none ∧ s.forms.forms = forms := by
    unfold parse
    simp only [s]
    split <;> simp_all
  rw [hparse, ← hroom]
  constructor
  · rintro ⟨hnone, rfl⟩
    exact s.isData_of_forms hnone
  · rintro ⟨hfailure, n, hdata, hn⟩
    exact TokenStream.forms_of_isData hdata rfl hfailure hn

theorem readableAt_of_parse {limit : Int} {source : List Char} {forms : List Form}
    (h : parse limit source = .ok forms) : ∀ form ∈ forms, form.ReadableAt limit := by
  obtain ⟨-, n, hdata, hn⟩ := parse_eq_ok_iff.mp h
  obtain ⟨hforms, hnesting⟩ := hdata.readable (lex_wellSpelled source)
  have hall := Form.nestingAll_le_iff.mp (Nat.le_trans hnesting hn)
  exact fun form hform => ⟨hforms form hform, hall form hform⟩

theorem parse_textAll {limit : Int} {forms : List Form}
    (h : ∀ form ∈ forms, form.ReadableAt limit) :
    parse limit (Form.textAll forms).toList = .ok forms := by
  rw [parse_eq_ok_iff]
  have hnesting : Form.nestingAll forms ≤ limit.toNat :=
    Form.nestingAll_le_iff.mpr fun form hform => (h form hform).nesting_le
  have hdata := Form.isData_tokensAll (fun form hform => (h form hform).readable.isDatum_tokens) 0
  have hlex := Form.lex_intercalate (c := ' ') rfl fun form hform => (h form hform).readable.spelled
  rw [Form.toList_textAll, hlex]
  exact ⟨rfl, _, hdata, hnesting⟩

/-- **Round trip.** At every limit, readable forms are read back from their texts joined by blanks.
Whatever a source is read as is readable, so an accepted source can be written anew from its forms:
the new text is read as the same forms, and these are written as the same text. -/
theorem parse_joined_texts :
    (∀ (limit : Int) (forms : List Form), (∀ form ∈ forms, form.ReadableAt limit) →
      parse limit (" ".intercalate (forms.map Form.text)).toList = .ok forms) ∧
    (∀ (limit : Int) (source : List Char) (forms : List Form),
      parse limit source = .ok forms → ∀ form ∈ forms, form.ReadableAt limit) ∧
    (∀ (limit : Int) (source : List Char) (forms : List Form), parse limit source = .ok forms →
      let rewritten := " ".intercalate (forms.map Form.text)
      ∃ forms', parse limit rewritten.toList = .ok forms' ∧ forms' = forms ∧
        " ".intercalate (forms'.map Form.text) = rewritten) := by
  have hjoined : ∀ (limit : Int) (forms : List Form),
      (∀ form ∈ forms, form.ReadableAt limit) →
        parse limit (" ".intercalate (forms.map Form.text)).toList = .ok forms := by
    intro limit forms h
    rw [← Form.textAll_eq_intercalate]
    exact parse_textAll h
  refine ⟨hjoined, fun _ _ _ => readableAt_of_parse, fun limit source forms h => ?_⟩
  exact ⟨forms, hjoined limit forms (readableAt_of_parse h), rfl, rfl⟩

end TableLisp

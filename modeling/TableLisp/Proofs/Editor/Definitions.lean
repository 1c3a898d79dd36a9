import TableLisp.Proofs.Editor.Words
import TableLisp.Proofs.Table.Grouping
import TableLisp.Proofs.Text.Position

/-!
# Definitions found by their words

The editor recognises a definition by a few words behind a parenthesis. On a buffer that consists of
the texts of forms these words are those at the head of a form, and say what the form is
(`Form.firstWord_eq_iff`): a list that begins with `define` and a symbol defines this symbol, as a
function if a lambda comes third. The editor passes over what is inside the form, so it
finds exactly the definitions that the forms are (`Index.scan_forms`), and of several definitions of
a name it keeps the last one at the place of the first (`Definition.putAll`).

It takes two kinds of forms for definitions that are none; `Form.Indexable` leaves them out.
-/

namespace TableLisp

open Text

/-! ## Definitions of the same name -/

namespace Definition

theorem names_put (d : Definition) : ∀ ds : List Definition,
    (d.put ds).map name = if d.name ∈ ds.map name then ds.map name else ds.map name ++ [d.name]
  | [] => rfl
  | e :: ds => by
      rw [put]
      by_cases heq : e.name = d.name
      · simp [heq]
      · have hne : d.name ≠ e.name := Ne.symm heq
        rw [if_neg heq, List.map_cons, names_put d ds]
        by_cases hmem : d.name ∈ ds.map name
        · simp [hmem]
        · simp [hmem, hne]

theorem mem_put_self (d : Definition) : ∀ ds : List Definition, d ∈ d.put ds
  | [] => List.mem_singleton_self d
  | first :: ds => by
      rw [put]
      split
      · exact List.mem_cons_self
      · exact List.mem_cons_of_mem _ (mem_put_self d ds)

theorem of_mem_put {d e : Definition} : ∀ {ds : List Definition}, e ∈ d.put ds → e = d ∨ e ∈ ds
  | [], h => .inl (List.mem_singleton.mp h)
  | first :: ds, h => by
      rw [put] at h
      split at h
      · rcases List.mem_cons.mp h with rfl | hmem
        · exact .inl rfl
        · exact .inr (List.mem_cons_of_mem _ hmem)
      · rcases List.mem_cons.mp h with rfl | hmem
        · exact .inr List.mem_cons_self
        · exact (of_mem_put hmem).imp_right (List.mem_cons_of_mem _)

/-- Where names are distinct, a definition drives out the one of its name. -/
theorem mem_put {d e : Definition} {ds : List Definition} (hnodup : (ds.map name).Nodup)
    (h : e ∈ d.put ds) : e = d ∨ e ∈ ds ∧ e.name ≠ d.name := by
  by_cases hname : e.name = d.name
  · have hput : ((d.put ds).map name).Nodup := by
      rw [names_put]
      split
      · exact hnodup
      · next hnew =>
          rw [← List.concat_eq_append]
          exact hnodup.concat hnew
    exact .inl (List.inj_on_of_nodup_map hput h (mem_put_self d ds) hname)
  · exact (of_mem_put h).imp_right fun hmem => ⟨hmem, hname⟩

/-- Adds definitions one after the other to none. -/
def putAll (ds : List Definition) : List Definition :=
  ds.foldl (fun all d => d.put all) []

theorem putAll_append_singleton (ds : List Definition) (d : Definition) :
    putAll (ds ++ [d]) = d.put (putAll ds) := by
  simp [putAll]

theorem names_putAll (ds : List Definition) : (putAll ds).map name = (ds.map name).eraseDups := by
  induction ds using List.reverseRecOn with
  | nil => rfl
  | append_singleton ds d ih =>
      rw [putAll_append_singleton, names_put, ih, List.map_append, List.map_singleton,
        eraseDups_append_singleton]
      simp only [List.mem_eraseDups]

/-- What is left of a name is its last definition. -/
theorem last_of_mem_putAll (ds : List Definition) :
    ∀ d ∈ putAll ds, ∃ before after, ds = before ++ d :: after ∧ d.name ∉ after.map name := by
  induction ds using List.reverseRecOn with
  | nil => exact List.forall_mem_nil _
  | append_singleton ds e ih =>
      intro d hd
      have hnodup : ((putAll ds).map name).Nodup := by
        rw [names_putAll]
        exact nodup_eraseDups _
      rw [putAll_append_singleton] at hd
      rcases mem_put hnodup hd with rfl | ⟨hmem, hne⟩
      · exact ⟨ds, [], rfl, List.not_mem_nil⟩
      · obtain ⟨before, after, rfl, hlast⟩ := ih d hmem
        refine ⟨before, after ++ [e], by simp, ?_⟩
        rw [List.map_append, List.mem_append, not_or]
        exact ⟨hlast, by simpa using hne⟩

end Definition

/-! ## The definitions that forms are -/

namespace Form

/-- A list or a dotted list that begins with a symbol. -/
def isHeadedBy (name : String) : Form → Bool
  | .list (.sym head :: _) | .dotted (.sym head :: _) _ => head == name
  | _ => false

/-- The name that a form defines: the second element of a list that begins with `define`. -/
def definedName? : Form → Option String
  | .list (.sym keyword :: .sym name :: _) =>
    if keyword = SpecialForm.define.name then some name else none
  | _ => none

theorem definedName?_eq_some_iff {form : Form} {name : String} :
    form.definedName? = some name ↔
      ∃ rest, form = .list (.sym SpecialForm.define.name :: .sym name :: rest) := by
  constructor
  · intro h
    rw [definedName?.eq_def] at h
    split at h
    · next keyword second rest =>
        split at h
        · next hkeyword =>
            cases h
            exact ⟨rest, by rw [hkeyword]⟩
        · cases h
    · cases h
  · rintro ⟨rest, rfl⟩
    rfl

theorem definedName?_of_head {head : Form} (h : head ≠ .sym SpecialForm.define.name)
    (rest : List Form) : definedName? (.list (head :: rest)) = none := by
  rw [Option.eq_none_iff_forall_ne_some]
  intro name hname
  obtain ⟨rest', heq⟩ := definedName?_eq_some_iff.mp hname
  cases heq
  exact h rfl

/-- The kind of a definition: a function if its third element is a lambda. -/
def definedKind : Form → Definition.Kind
  | .list (_ :: _ :: third :: _) =>
    if third.isHeadedBy SpecialForm.lambda.name then .function else .variable
  | _ => .variable

/-- A form that the reader can build and that the editor does not take for a definition without its
being one: a dotted list headed by `define`, or a list of `define` and an integer. -/
structure Indexable (form : Form) : Prop where
  readable : form.Readable
  ne_dotted : ∀ items tail, form ≠ .dotted (.sym SpecialForm.define.name :: items) tail
  ne_integer : ∀ n items,
    form ≠ .list (.sym SpecialForm.define.name :: .const (.int n) :: items)

/-- What stands in a definition before its name. -/
def beforeName : List Char := "(define ".toList

/-- The definition that a form at an offset of a buffer is. -/
def definition? (buffer : List Char) (offset : Nat) (form : Form) : Option Definition :=
  form.definedName?.map fun name =>
    ⟨name, form.definedKind, .ofOffset buffer (offset + beforeName.length)⟩

/-- The definitions that forms are, written from an offset on with one character between each
two. -/
def definitionsFrom (buffer : List Char) (offset : Nat) : List Form → List Definition
  | [] => []
  | form :: rest =>
    (form.definition? buffer offset).toList ++
      definitionsFrom buffer (offset + form.text.length + 1) rest

/-! ## The words at the head of a form -/

theorem tokens_dotted (offset : Nat) (items : List Form) (tail : Form) :
    let dot := offset + 1 + (textAll items).length + 1
    (dotted items tail).tokens offset =
      ⟨.lparen, "(", offset⟩ ::
        ((tokensAll (offset + 1) items ++ ⟨.dot, ".", dot⟩ :: tokens (dot + 2) tail) ++
          [⟨.rparen, ")", dot + 2 + tail.text.length⟩]) := by
  simp [tokens]

def firstWord : Form → List Char
  | .const .nil | .list _ | .dotted _ _ => ['(']
  | .const v => v.text.toList
  | .sym name => name.toList

theorem words_begin (form : Form) (offset : Nat) :
    ∃ later, (form.tokens offset).map Token.word = ⟨form.firstWord, offset⟩ :: later := by
  cases form with
  | const v =>
      cases v <;> simp [tokens, Token.word, firstWord, Value.text, Value.textWith, Value.atomText]
  | sym name => simp [tokens, Token.word, firstWord]
  | list items => simp [tokens, Token.word, firstWord]
  | dotted items tail => simp [tokens, Token.word, firstWord]

theorem not_isSymbolName {word : List Char} {c : Char} (hc : c ∈ word)
    (hatom : isAtomChar c = false) {name : String} (hname : isSymbolName name.toList = true) :
    word ≠ name.toList := by
  rintro rfl
  rw [isAtomChar_of_isSymbolName hname c hc] at hatom
  cases hatom

/-- The first word of a form is a symbol only if the form is. -/
theorem firstWord_eq_iff {form : Form} (h : form.Readable) {name : String}
    (hname : isSymbolName name.toList = true) :
    form.firstWord = name.toList ↔ form = .sym name := by
  have hparen : isAtomChar '(' = false := by decide
  have hmark : isAtomChar '"' = false := by decide
  cases h with
  | nil | list | dotted =>
      simp [firstWord, not_isSymbolName List.mem_cons_self hparen hname]
  | @int n h =>
      have hne : (Numeral.text n).toList ≠ name.toList := by
        intro heq
        have hbegins := Numeral.beginsPlain_of_isPlain (Numeral.isPlain_text n)
        rw [heq] at hbegins
        simp [isSymbolName, hbegins] at hname
      have hword : (const (.int n)).firstWord = (Numeral.text n).toList := rfl
      simp [hword, hne]
  | @str text h =>
      have hword : (const (.str text)).firstWord = '"' :: (text.toList ++ ['"']) := by
        simp [firstWord, Value.text, Value.textWith, Value.atomText]
      simp [hword, not_isSymbolName List.mem_cons_self hmark hname]
  | sym h => simp [firstWord, String.toList_inj]

/-! ## Words that spell a definition -/

theorem kindOf_of_ne {word : Word} (h : word.text ≠ ['(']) (later : List Word) :
    Definition.kindOf (word :: later) = .variable := by
  cases later with
  | nil => rfl
  | cons next later => simp [Definition.kindOf, h]

/-- Behind a parenthesis the first element counts. -/
theorem kindOf_parens {items : List Form} (hne : items ≠ []) (h : ∀ item ∈ items, item.Readable)
    (offset offset' : Nat) (later : List Word) :
    Definition.kindOf (⟨['('], offset⟩ :: ((tokensAll offset' items).map Token.word ++ later)) =
      if (list items).isHeadedBy SpecialForm.lambda.name then .function else .variable := by
  cases items with
  | nil => exact absurd rfl hne
  | cons head rest =>
      obtain ⟨more, hwords⟩ := head.words_begin offset'
      have hlambda : head.firstWord = "lambda".toList ↔ head = .sym SpecialForm.lambda.name :=
        firstWord_eq_iff (h head List.mem_cons_self) (by decide)
      have hhead : (list (head :: rest)).isHeadedBy SpecialForm.lambda.name = true ↔
          head = .sym SpecialForm.lambda.name := by
        cases head <;> simp [isHeadedBy]
      rw [tokensAll, List.map_append, hwords, List.cons_append, List.cons_append]
      simp only [Definition.kindOf, hlambda, hhead, decide_true, Bool.true_and, decide_eq_true_eq]

theorem isHeadedBy_dotted (name : String) (items : List Form) (tail : Form) :
    (dotted items tail).isHeadedBy name = (list items).isHeadedBy name := by
  rcases items with _ | ⟨_ | _ | _ | _, _⟩ <;> rfl

theorem kindOf_form {form : Form} (h : form.Readable) (offset : Nat) (later : List Word) :
    Definition.kindOf ((form.tokens offset).map Token.word ++ later) =
      if form.isHeadedBy SpecialForm.lambda.name then .function else .variable := by
  have hatom {word : Word} (hatom : ∀ c ∈ word.text, isAtomChar c = true) :
      Definition.kindOf (word :: later) = .variable := by
    refine kindOf_of_ne (fun htext => ?_) later
    have hparen := hatom '(' (by simp [htext])
    cases hparen
  cases h with
  | nil => simp [tokens, Token.word, Definition.kindOf, isHeadedBy]
  | int h => exact hatom fun c hc => isAtomChar_of_mem_text hc
  | @str text h =>
      refine kindOf_of_ne ?_ later
      simp [Token.word, Value.text, Value.textWith, Value.atomText]
  | sym h => exact hatom (isAtomChar_of_isSymbolName h)
  | @list items hne hitems =>
      have hparens := kindOf_parens hne hitems offset (offset + 1)
      simpa [tokens, Token.word] using hparens _
  | @dotted items tail hne hitems htail =>
      have hparens := kindOf_parens hne hitems offset (offset + 1)
      rw [isHeadedBy_dotted]
      simpa [tokens, Token.word] using hparens _

/-- The third element tells the kind of a definition. -/
theorem kindOf_elements (keyword name : Form) {rest : List Form}
    (h : ∀ form ∈ rest, form.Readable) (offset : Nat) {close : Word} (hclose : close.text = [')'])
    (later : List Word) :
    Definition.kindOf ((tokensAll offset rest).map Token.word ++ close :: later) =
      (list (keyword :: name :: rest)).definedKind := by
  cases rest with
  | nil => exact kindOf_of_ne (by simp [hclose]) later
  | cons third rest =>
      rw [tokensAll, List.map_append, List.append_assoc, kindOf_form (h third List.mem_cons_self)]
      rfl

theorem isName_of_isAtomChar {word : List Char} (h : ∀ c ∈ word, isAtomChar c = true)
    (offset : Nat) : Definition.isName ⟨word, offset⟩ = true := by
  have hatom {c : Char} {rest : List Char} (hword : word = c :: rest) : isAtomChar c = true :=
    h c (by simp [hword])
  unfold Definition.isName
  split
  · next hword => cases hatom hword
  · next hword => cases hatom hword
  · next hword => cases hatom hword
  · next c rest _ _ _ hword =>
      rw [bne_iff_ne]
      rintro rfl
      cases hatom hword
  · rfl

theorem ofWords?_of_ne (buffer : List Char) {word : Word} (h : word.text ≠ "define".toList)
    (later : List Word) : Definition.ofWords? buffer (word :: later) = none := by
  cases later with
  | nil => rfl
  | cons next later =>
      simp only [Definition.ofWords?, h, decide_false, Bool.false_and, Bool.false_eq_true, if_false]

/-- What does not begin with `define` spells no definition. -/
theorem ofWords?_of_head (buffer : List Char) {head : Form} (h : head.Readable)
    (hne : head ≠ .sym SpecialForm.define.name) (rest : List Form) (offset : Nat)
    (later : List Word) :
    Definition.ofWords? buffer ((tokensAll offset (head :: rest)).map Token.word ++ later) =
      none := by
  obtain ⟨more, hwords⟩ := head.words_begin offset
  have hword : head.firstWord ≠ "define".toList := mt (firstWord_eq_iff h (by decide)).mp hne
  rw [tokensAll, List.map_append, hwords]
  exact ofWords?_of_ne buffer hword _

theorem length_beforeName : beforeName.length = 8 := by
  decide

theorem words_define (second : Form) (rest : List Form) (offset : Nat) :
    (tokensAll (offset + 1) (.sym SpecialForm.define.name :: second :: rest)).map Token.word =
      ⟨"define".toList, offset + 1⟩ ::
        ((second.tokens (offset + beforeName.length)).map Token.word ++
          (tokensAll (offset + beforeName.length + second.text.length + 1) rest).map
            Token.word) := by
  have hword : ((sym "define").tokens (offset + 1)).map Token.word =
      [⟨"define".toList, offset + 1⟩] := rfl
  have hlength : (sym "define").text.length = 6 := by decide
  have hoffset : offset + 1 + 6 + 1 = offset + beforeName.length := by
    rw [length_beforeName]
  simp only [SpecialForm.name, tokensAll, hlength, hoffset, List.map_append, hword,
    List.singleton_append]

/-- A list spells the definition that it is. -/
theorem ofWords?_elements (buffer : List Char) {items : List Form} (h : (list items).Indexable)
    (offset : Nat) {close : Word} (hclose : close.text = [')']) (later : List Word) :
    Definition.ofWords? buffer
        ((tokensAll (offset + 1) items).map Token.word ++ close :: later) =
      (list items).definition? buffer offset := by
  obtain ⟨hne, hitems⟩ : items ≠ [] ∧ ∀ item ∈ items, item.Readable := by
    cases h.readable with
    | list hne hitems => exact ⟨hne, hitems⟩
  obtain ⟨head, rest, rfl⟩ := List.exists_cons_of_ne_nil hne
  obtain ⟨hhead, hrest⟩ := List.forall_mem_cons.mp hitems
  by_cases hdefine : head = .sym SpecialForm.define.name
  · subst hdefine
    cases rest with
    | nil =>
        simp [tokensAll, tokens, Token.word, Definition.ofWords?, Definition.isName, hclose,
          definition?, definedName?]
    | cons second rest =>
        obtain ⟨hsecond, hrest⟩ := List.forall_mem_cons.mp hrest
        have hkind := kindOf_elements (.sym SpecialForm.define.name) second hrest
          (offset + beforeName.length + second.text.length + 1) hclose later
        rw [words_define]
        cases hsecond with
        | sym hname =>
            simp only [tokens, Token.word, List.map_cons, List.map_nil, List.cons_append,
              List.nil_append, Definition.ofWords?, decide_true, isName_of_isAtomChar (isAtomChar_of_isSymbolName hname),
              hkind, Bool.true_and, if_true, String.ofList_toList,
              Position.inBuffer_eq_ofOffset]
            rfl
        | int hn => exact absurd rfl (h.ne_integer _ rest)
        | nil | str | list | dotted =>
            simp [tokens, Token.word, Definition.ofWords?, Definition.isName, definition?,
              definedName?, Value.text, Value.textWith, Value.atomText]
  · rw [ofWords?_of_head buffer hhead hdefine, definition?, definedName?_of_head hdefine]
    rfl

end Form

/-! ## Scanning forms -/

namespace Index

open Form

theorem balanced_tokensAll {forms : List Form} (h : ∀ form ∈ forms, form.Readable)
    (offset : Nat) : Balanced (tokensAll offset forms) :=
  (isData_tokensAll (fun form hform => (h form hform).isDatum_tokens) offset).balanced

/-- Outermost parentheses add the definition that they hold. -/
theorem scan_outermost (buffer : List Char) (definitions : List Definition) {ts : List Token}
    (hts : Balanced ts) {l r : Token} (hparens : ∀ t ∈ l :: (ts ++ [r]), t.MarksParens)
    (hl : l.kind = .lparen) (hr : r.kind = .rparen) {later : List Word}
    {found : Option Definition} (hfound : r.word.text = [')'] →
      Definition.ofWords? buffer (ts.map Token.word ++ r.word :: later) = found) :
    scan buffer 0 definitions ((l :: (ts ++ [r])).map Token.word ++ later) =
      scan buffer 0 ((found.map (·.put definitions)).getD definitions) later := by
  obtain ⟨hopen, hinside⟩ := List.forall_mem_cons.mp hparens
  obtain ⟨hinside, hclose⟩ := List.forall_mem_append.mp hinside
  have hclose := hclose r List.mem_cons_self
  have hpasses := Passes.of_balanced hts hinside
  rw [scan_parens buffer definitions hopen hl hpasses hclose hr later (Int.le_refl 0),
    hfound (hclose.rparen_iff.mpr hr), if_pos rfl]

/-- Between forms of a buffer the next one adds the definition that it is. -/
theorem scan_form (buffer : List Char) (definitions : List Definition) {form : Form}
    (h : form.Indexable) {offset : Nat} (hparens : ∀ t ∈ form.tokens offset, t.MarksParens)
    (later : List Word) :
    scan buffer 0 definitions ((form.tokens offset).map Token.word ++ later) =
      scan buffer 0 (((form.definition? buffer offset).map (·.put definitions)).getD definitions)
        later := by
  cases h.readable with
  | int | str | sym =>
      exact scan_other buffer 0 definitions (hparens _ List.mem_cons_self) (by simp) (by simp) later
  | nil =>
      refine scan_outermost buffer definitions .nil hparens rfl rfl fun hclose => ?_
      exact ofWords?_of_ne buffer (by simp [hclose]) later
  | list hne hitems =>
      exact scan_outermost buffer definitions (balanced_tokensAll hitems _) hparens rfl rfl
        fun hclose => ofWords?_elements buffer h offset hclose later
  | @dotted items tail hne hitems htail =>
      obtain ⟨head, rest, rfl⟩ := List.exists_cons_of_ne_nil hne
      have hhead : head ≠ .sym SpecialForm.define.name := by
        rintro rfl
        exact h.ne_dotted rest tail rfl
      rw [tokens_dotted] at hparens ⊢
      refine scan_outermost buffer definitions ?_ hparens rfl rfl fun _ => ?_
      · exact (balanced_tokensAll hitems _).dotted rfl (htail.isDatum_tokens _).balanced
      · rw [List.map_append, List.append_assoc]
        exact ofWords?_of_head buffer (hitems _ List.mem_cons_self) hhead _ _ _

/-- The forms of a buffer add the definitions that they are, one after the other. -/
theorem scan_forms (buffer : List Char) : ∀ (forms : List Form) (definitions : List Definition)
    (offset : Nat), (∀ form ∈ forms, form.Indexable) →
      (∀ t ∈ tokensAll offset forms, t.MarksParens) →
      scan buffer 0 definitions ((tokensAll offset forms).map Token.word) =
        (0, (definitionsFrom buffer offset forms).foldl (fun all d => d.put all) definitions)
  | [], _, _, _, _ => rfl
  | form :: rest, definitions, offset, h, hparens => by
      obtain ⟨hform, hrest⟩ := List.forall_mem_cons.mp h
      obtain ⟨hfirst, hlater⟩ := List.forall_mem_append.mp hparens
      rw [tokensAll, List.map_append, scan_form buffer definitions hform hfirst,
        scan_forms buffer rest _ _ hrest hlater, definitionsFrom, List.foldl_append]
      cases form.definition? buffer offset <;> rfl

end Index

end TableLisp

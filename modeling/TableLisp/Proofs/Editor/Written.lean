import TableLisp.Proofs.Editor.Definitions

/-!
# The index of written forms

A buffer that is written from forms, each on lines of its own, is indexed by what the forms are: the
definitions among them with the place of each name, parentheses that match, and no string left open
(`index_of_forms`).

Strings are looked for line by line, whatever ends a line, so it does not matter how a text is cut
into lines as long as no comment begins in it (`Index.Quotes`).
-/

namespace TableLisp

open Text

/-! ## Strings -/

namespace Index

/-- From whether a string is open to whether one is open behind some characters, in which no comment
begins. -/
inductive Quotes : Bool → List Char → Bool → Prop
  | nil {isOpen : Bool} : Quotes isOpen [] isOpen
  | mark {isOpen after : Bool} {cs : List Char} (h : Quotes (!isOpen) cs after) :
      Quotes isOpen ('"' :: cs) after
  | other {isOpen after : Bool} {c : Char} {cs : List Char} (hmark : c ≠ '"')
      (hcomment : c = ';' → isOpen = true) (h : Quotes isOpen cs after) :
      Quotes isOpen (c :: cs) after

namespace Quotes

theorem append {isOpen between after : Bool} {cs ds : List Char} (h : Quotes isOpen cs between)
    (h' : Quotes between ds after) : Quotes isOpen (cs ++ ds) after := by
  induction h with
  | nil => exact h'
  | mark _ ih => exact .mark (ih h')
  | other hmark hcomment _ ih => exact .other hmark hcomment (ih h')

theorem of_append : ∀ {cs ds : List Char} {isOpen after : Bool}, Quotes isOpen (cs ++ ds) after →
    ∃ between, Quotes isOpen cs between ∧ Quotes between ds after
  | [], _, isOpen, _, h => ⟨isOpen, .nil, h⟩
  | _ :: _, _, _, _, .mark h => by
      obtain ⟨between, hcs, hds⟩ := of_append h
      exact ⟨between, .mark hcs, hds⟩
  | _ :: _, _, _, _, .other hmark hcomment h => by
      obtain ⟨between, hcs, hds⟩ := of_append h
      exact ⟨between, .other hmark hcomment hcs, hds⟩

theorem openAfterLine_eq {isOpen after : Bool} {line : List Char} (h : Quotes isOpen line after) :
    openAfterLine isOpen line = after := by
  induction h with
  | nil => rfl
  | mark _ ih => rw [openAfterLine, ih]
  | @other isOpen after c cs hmark hcomment _ ih =>
      by_cases hc : c = ';'
      · subst hc
        rw [openAfterLine, if_pos (hcomment rfl), ih]
      · rw [openAfterLine, ih]
        · exact hmark
        · exact hc

theorem foldl_openAfterLine : ∀ {lines : List (List Char)} {isOpen after : Bool},
    Quotes isOpen lines.flatten after → lines.foldl openAfterLine isOpen = after
  | [], _, _, .nil => rfl
  | line :: lines, isOpen, after, h => by
      obtain ⟨between, hline, hlines⟩ := of_append h
      rw [List.foldl_cons, hline.openAfterLine_eq, foldl_openAfterLine hlines]

theorem plain : ∀ {cs : List Char}, (∀ c ∈ cs, c ≠ '"' ∧ c ≠ ';') → Quotes false cs false
  | [], _ => .nil
  | c :: cs, h => by
      obtain ⟨⟨hmark, hcomment⟩, hcs⟩ := List.forall_mem_cons.mp h
      exact .other hmark (fun hc => absurd hc hcomment) (plain hcs)

theorem inside : ∀ {cs : List Char}, '"' ∉ cs → Quotes true cs true
  | [], _ => .nil
  | _ :: _, h =>
      .other (Ne.symm (List.ne_of_not_mem_cons h)) (fun _ => rfl)
        (inside (List.not_mem_of_not_mem_cons h))

theorem atom {cs : List Char} (h : ∀ c ∈ cs, isAtomChar c = true) : Quotes false cs false := by
  refine plain fun c hc => ⟨?_, ?_⟩ <;> rintro rfl <;> cases h _ hc

theorem intercalate {sep : List Char} (hsep : Quotes false sep false) :
    ∀ {texts : List (List Char)}, (∀ text ∈ texts, Quotes false text false) →
      Quotes false (sep.intercalate texts) false
  | [], _ => .nil
  | [text], h => by simpa using h text List.mem_cons_self
  | text :: next :: texts, h => by
      obtain ⟨htext, htexts⟩ := List.forall_mem_cons.mp h
      rw [List.intercalate_cons_cons]
      exact (htext.append hsep).append (intercalate hsep htexts)

theorem parens {cs : List Char} (h : Quotes false cs false) :
    Quotes false ('(' :: (cs ++ [')'])) false := by
  have hopen : Quotes false ['('] false := plain (by simp)
  have hclose : Quotes false [')'] false := plain (by simp)
  exact hopen.append (h.append hclose)

theorem textAll {forms : List Form} (h : ∀ form ∈ forms, Quotes false form.text.toList false) :
    Quotes false (Form.textAll forms).toList false := by
  rw [Form.toList_textAll]
  exact intercalate (plain (by simp)) (by simpa using h)

end Quotes

/-- The text of a form closes its strings. -/
theorem quotes_text {form : Form} (h : form.Readable) : Quotes false form.text.toList false := by
  induction h with
  | nil => exact .parens .nil
  | int h => exact .atom fun c hc => isAtomChar_of_mem_text hc
  | @str text h =>
      have htext : (Form.const (.str text)).text.toList = '"' :: (text.toList ++ ['"']) := by
        simp [Form.text, Value.text, Value.textWith, Value.atomText]
      rw [htext]
      exact .mark ((Quotes.inside h).append (.mark .nil))
  | sym h => exact .atom (isAtomChar_of_isSymbolName h)
  | @list items _ _ ih =>
      have htext : (Form.list items).text.toList =
          '(' :: ((Form.textAll items).toList ++ [')']) := by
        simp [Form.text]
      rw [htext]
      exact .parens (.textAll ih)
  | @dotted items tail _ _ _ ih htail =>
      have htext : (Form.dotted items tail).text.toList =
          '(' :: (((Form.textAll items).toList ++ " . ".toList ++ tail.text.toList) ++ [')']) := by
        simp [Form.text]
      have hdot : Quotes false " . ".toList false := .plain (by simp)
      rw [htext]
      exact .parens (((Quotes.textAll ih).append hdot).append htail)

theorem openString_ofBuffer {buffer : List Char} {after : Bool} (h : Quotes false buffer after) :
    (ofBuffer buffer).openString = after :=
  Quotes.foldl_openAfterLine (by rwa [flatten_splitLines])

end Index

/-! ## Places of names -/

namespace Form

theorem names_definitionsFrom (buffer : List Char) : ∀ (forms : List Form) (offset : Nat),
    (definitionsFrom buffer offset forms).map Definition.name = forms.filterMap definedName?
  | [], _ => rfl
  | form :: rest, offset => by
      rw [definitionsFrom, List.map_append, names_definitionsFrom buffer rest, definition?]
      cases hname : form.definedName? <;> simp [hname]

/-- Forms, one below the other. -/
def written (forms : List Form) : List Char :=
  ['\n'].intercalate (forms.map (·.text.toList))

/-- Forms as they are written above others. -/
def lines (forms : List Form) : List Char :=
  forms.flatMap fun form => form.text.toList ++ ['\n']

theorem lines_cons (form : Form) (rest : List Form) :
    lines (form :: rest) = form.text.toList ++ ['\n'] ++ lines rest :=
  List.flatMap_cons

theorem prefix_intercalate (sep text : List Char) (texts : List (List Char)) :
    text <+: sep.intercalate (text :: texts) := by
  cases texts with
  | nil => simp
  | cons next texts =>
      rw [List.intercalate_cons_cons, List.append_assoc]
      exact List.prefix_append ..

theorem written_append (earlier : List Form) (form : Form) (later : List Form) :
    written (earlier ++ form :: later) = lines earlier ++ written (form :: later) := by
  induction earlier with
  | nil => rfl
  | cons first earlier ih =>
      have hnext : written (first :: (earlier ++ form :: later)) =
          first.text.toList ++ ['\n'] ++ written (earlier ++ form :: later) := by
        cases earlier <;> exact List.intercalate_cons_cons ..
      rw [List.cons_append, hnext, ih, lines_cons, List.append_assoc _ (lines earlier)]

/-- A definition comes from a form, and those behind it from the later forms. -/
theorem split_definitionsFrom {buffer : List Char} {d : Definition} {after : List Definition} :
    ∀ {forms : List Form} {offset : Nat} {before : List Definition},
      definitionsFrom buffer offset forms = before ++ d :: after →
        ∃ earlier form later, forms = earlier ++ form :: later ∧
          form.definition? buffer (offset + (lines earlier).length) = some d ∧
          after.map Definition.name = later.filterMap definedName?
  | [], _, before, h => by simp [definitionsFrom] at h
  | form :: rest, offset, before, h => by
      have hlater {before : List Definition}
          (h : definitionsFrom buffer (offset + form.text.length + 1) rest = before ++ d :: after) :
          ∃ earlier form' later, form :: rest = earlier ++ form' :: later ∧
            form'.definition? buffer (offset + (lines earlier).length) = some d ∧
            after.map Definition.name = later.filterMap definedName? := by
        obtain ⟨earlier, form', later, rfl, hform, hafter⟩ := split_definitionsFrom h
        refine ⟨form :: earlier, form', later, rfl, ?_, hafter⟩
        have hoffset : offset + (lines (form :: earlier)).length =
            offset + form.text.length + 1 + (lines earlier).length := by
          rw [lines_cons, List.length_append, List.length_append, String.length_toList,
            List.length_singleton]
          omega
        rwa [hoffset]
      rw [definitionsFrom] at h
      cases hfound : form.definition? buffer offset with
      | none =>
          rw [hfound] at h
          exact hlater h
      | some first =>
          rw [hfound] at h
          cases before with
          | nil =>
              obtain ⟨rfl, rfl⟩ := List.cons.inj h
              exact ⟨[], form, rest, rfl, hfound, names_definitionsFrom buffer rest _⟩
          | cons first' before => exact hlater (List.cons.inj h).2

/-- The text of a definition begins with its name. -/
theorem prefix_text {form : Form} {name : String} (h : form.definedName? = some name) :
    beforeName ++ name.toList <+: form.text.toList := by
  obtain ⟨rest, rfl⟩ := definedName?_eq_some_iff.mp h
  have hbefore : beforeName = ['('] ++ SpecialForm.define.name.toList ++ [' '] := by decide
  have htext : (list (sym SpecialForm.define.name :: sym name :: rest)).text.toList =
      beforeName ++ [' '].intercalate ((sym name :: rest).map (·.text.toList)) ++ [')'] := by
    rw [text, String.toList_append, String.toList_append, toList_textAll, List.map_cons,
      List.map_cons, List.intercalate_cons_cons, hbefore]
    simp only [text, List.append_assoc]
    rfl
  rw [htext, List.append_assoc, List.prefix_append_right_inj]
  exact (prefix_intercalate ..).trans (List.prefix_append ..)

theorem place_of_definition {earlier later : List Form} {form : Form} {name : String}
    (h : form.definedName? = some name) :
    let buffer := written (earlier ++ form :: later)
    let before := lines earlier ++ beforeName
    before ++ name.toList <+: buffer ∧
      Position.ofOffset buffer (0 + (lines earlier).length + beforeName.length) =
        ⟨before.count '\n', lastLineLength before⟩ := by
  intro buffer before
  have hbegins : before ++ name.toList <+: buffer := by
    simp only [buffer, before]
    rw [written_append, List.append_assoc, List.prefix_append_right_inj]
    exact (prefix_text h).trans (prefix_intercalate ..)
  obtain ⟨after, hafter⟩ := (List.prefix_append ..).trans hbegins
  have hoffset : 0 + (lines earlier).length + beforeName.length = before.length := by
    rw [List.length_append, Nat.zero_add]
  refine ⟨hbegins, ?_⟩
  rw [← hafter, hoffset]
  exact position_behind before after

end Form

/-! ## The index -/

namespace Index

theorem scan_written {forms : List Form} (h : ∀ form ∈ forms, form.Indexable) :
    let buffer := Form.written forms
    scan buffer 0 [] (Word.ofBuffer buffer) =
      (0, Definition.putAll (Form.definitionsFrom buffer 0 forms)) := by
  intro buffer
  have hlex : lex buffer = ⟨Form.tokensAll 0 forms, none⟩ :=
    Form.lex_intercalate rfl fun form hform => (h form hform).readable.spelled
  have hparens := lex_marksParens buffer
  rw [hlex] at hparens
  rw [words_of_lex (by rw [hlex]), hlex]
  exact scan_forms buffer forms [] 0 h hparens

theorem quotes_written {forms : List Form} (h : ∀ form ∈ forms, form.Readable) :
    Quotes false (Form.written forms) false := by
  refine .intercalate (.plain (by simp)) ?_
  simpa using fun form hform => quotes_text (h form hform)

end Index

/-- **The index of written forms.** A buffer of forms, one below the other, has for its definitions
the names that the forms define, in order of their first definition. Each is placed where its name
stands in the last form that defines it, and is of the kind that this form tells. The parentheses
match, and no string is left open. -/
theorem index_of_forms (forms : List Form) (h : ∀ form ∈ forms, form.Indexable) :
    let buffer := ("\n".intercalate (forms.map Form.text)).toList
    let index := Index.ofBuffer buffer
    index.definitions.map Definition.name = (forms.filterMap Form.definedName?).eraseDups ∧
    (∀ d ∈ index.definitions, ∃ earlier form later, forms = earlier ++ form :: later ∧
      form.definedName? = some d.name ∧ d.name ∉ later.filterMap Form.definedName? ∧
      d.kind = form.definedKind ∧
      let before := Form.lines earlier ++ "(define ".toList
      before ++ d.name.toList <+: buffer ∧
        d.position = ⟨before.count '\n', lastLineLength before⟩) ∧
    index.balance = 0 ∧ index.openString = false := by
  intro buffer index
  have hbuffer : buffer = Form.written forms := by
    simp [buffer, Form.written, String.toList_intercalate, Function.comp_def]
  have hscan : Index.scan buffer 0 [] (Word.ofBuffer buffer) =
      (0, Definition.putAll (Form.definitionsFrom buffer 0 forms)) := by
    rw [hbuffer]
    exact Index.scan_written h
  have hdefinitions : index.definitions =
      Definition.putAll (Form.definitionsFrom buffer 0 forms) := congrArg Prod.snd hscan
  have hopen : index.openString = false := by
    refine Index.openString_ofBuffer ?_
    rw [hbuffer]
    exact Index.quotes_written fun form hform => (h form hform).readable
  refine ⟨?_, fun d hd => ?_, congrArg Prod.fst hscan, hopen⟩
  · rw [hdefinitions, Definition.names_putAll, Form.names_definitionsFrom]
  · rw [hdefinitions] at hd
    obtain ⟨before, after, hsplit, hlast⟩ := Definition.last_of_mem_putAll _ d hd
    obtain ⟨earlier, form, later, rfl, hfound, hafter⟩ := Form.split_definitionsFrom hsplit
    obtain ⟨name, hname, rfl⟩ := Option.map_eq_some_iff.mp hfound
    refine ⟨earlier, form, later, rfl, hname, hafter ▸ hlast, rfl, ?_⟩
    rw [hbuffer]
    exact Form.place_of_definition hname

/-- A name that is defined twice, and a definition that is only quoted. -/
theorem index_of_redefinition :
    let lambda : Form := .list [.sym "lambda", .list [.sym "x"], .sym "x"]
    let forms : List Form :=
      [.list [.sym "define", .sym "f", .const (.str "(\n")],
        .list [.sym "quote", .list [.sym "define", .sym "g", .const .nil]],
        .list [.sym "define", .sym "f", lambda]]
    let index := Index.ofBuffer ("\n".intercalate (forms.map Form.text)).toList
    (∀ form ∈ forms, form.Indexable) ∧ index.definitions.map Definition.name = ["f"] ∧
      index.balance = 0 ∧ index.openString = false := by
  intro lambda forms index
  have hsym {name : String} (hname : isSymbolName name.toList = true) : (Form.sym name).Readable :=
    .sym hname
  have hlist {head : Form} {rest : List Form} (hhead : head.Readable)
      (hrest : ∀ form ∈ rest, form.Readable) : (Form.list (head :: rest)).Readable :=
    .list (List.cons_ne_nil _ _) (List.forall_mem_cons.mpr ⟨hhead, hrest⟩)
  have hlambda : lambda.Readable :=
    hlist (hsym (by decide)) (by simpa using ⟨hlist (hsym (by decide)) (by simp), hsym (by decide)⟩)
  have hquoted : (Form.list [.sym "define", .sym "g", .const .nil]).Readable :=
    hlist (hsym (by decide)) (by simpa using ⟨hsym (by decide), .nil⟩)
  have hforms : ∀ form ∈ forms, form.Indexable := by
    simp only [forms, List.forall_mem_cons]
    refine ⟨⟨hlist (hsym (by decide)) ?_, by simp, by simp⟩,
      ⟨hlist (hsym (by decide)) (by simpa using hquoted), by simp, by simp⟩,
      ⟨hlist (hsym (by decide)) (by simpa using ⟨hsym (by decide), hlambda⟩), by simp,
        by simp⟩, List.forall_mem_nil _⟩
    simpa using ⟨hsym (by decide), .str (by decide)⟩
  obtain ⟨hnames, -, hbalance, hopen⟩ := index_of_forms forms hforms
  exact ⟨hforms, hnames.trans (by decide), hbalance, hopen⟩

end TableLisp

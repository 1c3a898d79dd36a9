import TableLisp.Proofs.Editor.Definitions
import TableLisp.Proofs.Reader.Coverage
import TableLisp.Proofs.Session.Defining
import TableLisp.Proofs.Session.Growth
import TableLisp.Proofs.Session.Opening

/-!
# Names that the editor offers

The editor takes a name from each outermost parenthesis that has `define` and an atom behind it, and
from nowhere else (`Index.mem_names_scan`). Such a parenthesis opens a form of the program, or it
stands right behind a quote mark (`IsData.outermost`). In the first case the form is a list that
begins with `define`, or a dotted list, and a program that succeeds has bound the name
(`Session.defines_of_run`). In the second case it opens a piece of data, and the name need not be
bound (`quoted_definition_offered`).
-/

namespace TableLisp

open Text

/-! ## Tokens that spell names -/

theorem isAtom_of_atomKind {source text : List Char} {offset : Nat} {kind : Token.Kind}
    (h : atomKind source text offset = .ok kind) : kind.isAtom = true := by
  unfold atomKind at h
  repeat' split at h
  all_goals cases h <;> rfl

/-- A token whose text is a symbol is a symbol, and the editor takes exactly atoms for names. -/
structure Token.MarksNames (token : Token) : Prop where
  symbol : isSymbolName token.text.toList = true → token.kind = .symbol
  atom_iff : Definition.isName token.word = true ↔ token.kind.isAtom = true

theorem Piece.marksNames {source : List Char} {offset : Nat} {c : Char} {rest : List Char}
    {kind : Token.Kind} (h : (cut c rest).kind? source offset = .ok (some kind)) :
    Token.MarksNames ⟨kind, .ofList (cut c rest).text, offset⟩ := by
  suffices hcut : (isSymbolName (cut c rest).text = true → kind = .symbol) ∧
      (Definition.isName ⟨(cut c rest).text, offset⟩ = true ↔ kind.isAtom = true) by
    rw [← String.toList_ofList (l := (cut c rest).text)] at hcut
    exact ⟨hcut.1, hcut.2⟩
  revert h
  fun_cases cut c rest with
  | case1 | case2 | case6 | case9 => rintro ⟨⟩
  | case3 _ _ hq =>
      rintro ⟨⟩
      simp [hq, Definition.isName, isSymbolName, isAtomChar, Token.Kind.isAtom]
  | case4 _ _ _ hl =>
      rintro ⟨⟩
      simp [hl, Definition.isName, isSymbolName, isAtomChar, Token.Kind.isAtom]
  | case5 _ _ _ _ hr =>
      rintro ⟨⟩
      simp [hr, Definition.isName, isSymbolName, isAtomChar, Token.Kind.isAtom]
  | case7 _ _ _ _ _ hs =>
      rintro ⟨⟩
      simp [hs, Definition.isName, isSymbolName, isAtomChar, Token.Kind.isAtom]
  | case8 _ _ _ _ _ _ hc =>
      intro h
      cases hkind : atomKind source (c :: rest.takeWhile isAtomChar) offset with
      | error e => simp [kind?, hkind, Except.map] at h
      | ok kind' =>
          obtain rfl : kind' = kind := by simpa [kind?, hkind, Except.map] using h
          constructor
          · intro hname
            rw [atomKind_of_isSymbolName hname] at hkind
            exact (Except.ok.inj hkind).symm
          · exact iff_of_true (Form.isName_of_isAtomChar (forall_isAtomChar hc rest) offset)
              (isAtom_of_atomKind hkind)

theorem lex_marksNames (source : List Char) :
    ∀ token ∈ (lex source).tokens, token.MarksNames :=
  lex_forall Piece.marksNames

/-! ## Tokens that look like a definition -/

/-- Tokens that begin like a definition of a name: with a parenthesis, `define` and the name. -/
def OpensDefinition (ts : List Token) (name : String) : Prop :=
  ∃ l keyword target after, ts = l :: keyword :: target :: after ∧ l.kind = .lparen ∧
    keyword.text = SpecialForm.define.name ∧ target.text = name ∧ target.kind.isAtom = true

/-- Behind some tokens, where no parenthesis is open, others begin like a definition of a name. -/
def OutermostDefinition (before after : List Token) (name : String) : Prop :=
  before.countP (·.kind = .lparen) = before.countP (·.kind = .rparen) ∧
    OpensDefinition after name

theorem Definition.exists_ofWords?_iff {buffer : List Char} {keyword target : Word}
    {later : List Word} {name : String} :
    (∃ d, ofWords? buffer (keyword :: target :: later) = some d ∧ d.name = name) ↔
      keyword.text = "define".toList ∧ isName target = true ∧ .ofList target.text = name := by
  rw [ofWords?]
  generalize "define".toList = define
  simp [and_assoc]

/-- The words behind an opening parenthesis spell a definition if the tokens look like one. -/
theorem opensDefinition_iff (buffer : List Char) {l : Token} (hl : l.kind = .lparen)
    {name : String} : ∀ {ts : List Token}, (∀ t ∈ ts, t.MarksNames) →
    (OpensDefinition (l :: ts) name ↔
      ∃ d, Definition.ofWords? buffer (ts.map Token.word) = some d ∧ d.name = name)
  | [], _ => by simp [OpensDefinition, Definition.ofWords?]
  | [keyword], _ => by simp [OpensDefinition, Definition.ofWords?]
  | keyword :: target :: ts, hts => by
      have htarget := (hts target (by simp)).atom_iff
      have hkeyword : keyword.word.text = "define".toList ↔
          keyword.text = SpecialForm.define.name := String.toList_inj
      rw [List.map_cons, List.map_cons, Definition.exists_ofWords?_iff, htarget, hkeyword]
      simp [OpensDefinition, Token.word, hl, and_comm]

theorem exists_outermost_cons {t : Token} {ts before : List Token} {name : String} :
    (∃ front after, t :: ts = front ++ after ∧ OutermostDefinition (before ++ front) after name) ↔
      OutermostDefinition before (t :: ts) name ∨
        ∃ front after, ts = front ++ after ∧
          OutermostDefinition (before ++ [t] ++ front) after name := by
  constructor
  · rintro ⟨front, after, heq, h⟩
    obtain ⟨rfl, rfl⟩ | ⟨front, rfl, rfl⟩ := List.cons_eq_append_iff.mp heq
    · exact Or.inl (by simpa using h)
    · exact Or.inr ⟨front, after, rfl, by simpa using h⟩
  · rintro (h | ⟨front, after, rfl, h⟩)
    · exact ⟨[], _, rfl, by simpa using h⟩
    · exact ⟨t :: front, after, rfl, by simpa using h⟩

theorem not_outermost_of_kind {t : Token} (h : t.kind ≠ .lparen) (before ts : List Token)
    (name : String) : ¬ OutermostDefinition before (t :: ts) name := by
  rintro ⟨-, l, keyword, target, after, heq, hl, -⟩
  exact h ((List.cons.inj heq).1 ▸ hl)

theorem Definition.mem_names_put {d : Definition} {ds : List Definition} {name : String} :
    name ∈ (d.put ds).map Definition.name ↔ name ∈ ds.map Definition.name ∨ d.name = name := by
  rw [names_put]
  split
  · next hmem =>
      refine ⟨Or.inl, ?_⟩
      rintro (h | rfl)
      · exact h
      · exact hmem
  · simp [eq_comm]

namespace Index

/-- The scan collects the names of exactly those definitions that tokens look like outside of all
parentheses. `before` are the tokens that it has come over. -/
theorem mem_names_scan (buffer : List Char) (name : String) :
    ∀ (ts before : List Token) (ds : List Definition), (∀ t ∈ ts, t.MarksParens) →
      (∀ t ∈ ts, t.MarksNames) →
      (name ∈ (scan buffer (before.countP (·.kind = .lparen) - before.countP (·.kind = .rparen))
          ds (ts.map Token.word)).2.map Definition.name ↔
        name ∈ ds.map Definition.name ∨
          ∃ front after, ts = front ++ after ∧ OutermostDefinition (before ++ front) after name)
  | [], before, ds, _, _ => by
      simp [scan, OutermostDefinition, OpensDefinition]
  | t :: ts, before, ds, hparens, hnames => by
      obtain ⟨ht, hparens⟩ := List.forall_mem_cons.mp hparens
      obtain ⟨-, hnames⟩ := List.forall_mem_cons.mp hnames
      have ih := fun ds => mem_names_scan buffer name ts (before ++ [t]) ds hparens hnames
      rw [exists_outermost_cons, List.map_cons]
      by_cases hl : t.kind = .lparen
      · have hbalance : ((before ++ [t]).countP (·.kind = .lparen) : Int) -
            (before ++ [t]).countP (·.kind = .rparen) =
              before.countP (·.kind = .lparen) - before.countP (·.kind = .rparen) + 1 := by
          simp [hl]
          omega
        rw [hbalance] at ih
        rw [scan, if_pos (ht.lparen_iff.mpr hl), ih, ← or_assoc]
        refine or_congr_left ?_
        have houtermost : ((before.countP (·.kind = .lparen) : Int) -
            before.countP (·.kind = .rparen) + 1 = 1) ↔
              before.countP (·.kind = .lparen) = before.countP (·.kind = .rparen) := by
          omega
        rw [OutermostDefinition, opensDefinition_iff buffer hl hnames]
        by_cases hbalanced : before.countP (·.kind = .lparen) = before.countP (·.kind = .rparen)
        · rw [if_pos (houtermost.mpr hbalanced), and_iff_right hbalanced]
          cases Definition.ofWords? buffer (ts.map Token.word) with
          | none => simp
          | some d => simpa using Definition.mem_names_put
        · simp [mt houtermost.mp hbalanced, hbalanced]
      · rw [or_iff_right (not_outermost_of_kind hl before ts name)]
        by_cases hr : t.kind = .rparen
        · have hbalance : ((before ++ [t]).countP (·.kind = .lparen) : Int) -
              (before ++ [t]).countP (·.kind = .rparen) =
                before.countP (·.kind = .lparen) - before.countP (·.kind = .rparen) - 1 := by
            simp [hr]
            omega
          rw [scan_rparen _ _ _ ht hr, ← ih, hbalance]
        · rw [scan_other _ _ _ ht hl hr, ← ih]
          simp [hl, hr]

theorem mem_names_ofBuffer {source : List Char} (h : (lex source).failure = none)
    (name : String) :
    name ∈ (ofBuffer source).definitions.map Definition.name ↔
      ∃ before after, (lex source).tokens = before ++ after ∧
        OutermostDefinition before after name := by
  have hscan := mem_names_scan source name (lex source).tokens [] [] (lex_marksParens source)
    (lex_marksNames source)
  rw [← words_of_lex h] at hscan
  simp only [List.countP_nil, Int.sub_self, List.map_nil, List.not_mem_nil, false_or,
    List.nil_append] at hscan
  exact hscan

end Index

/-! ## Outermost parentheses of data -/

/-- In a datum nothing is balanced in front of a parenthesis but no tokens or some with a quote mark
behind them. -/
theorem IsDatum.outermost {ts : List Token} {form : Form} {n : Nat} (h : IsDatum ts form n)
    {before after : List Token} {l : Token} (heq : ts = before ++ l :: after)
    (hl : l.kind = .lparen)
    (hbalanced : before.countP (·.kind = .lparen) = before.countP (·.kind = .rparen)) :
    before = [] ∨ ∃ q, before.getLast? = some q ∧ q.kind = .quote := by
  obtain ⟨t, rfl, -⟩ | ⟨q, us, form', m, rfl, hq, h'⟩ | ⟨l', us, r, rfl, hl', hr, hus⟩ := h.shape
  · obtain ⟨rfl, -⟩ | ⟨rest, rfl, hnil⟩ := List.cons_eq_append_iff.mp heq
    · exact Or.inl rfl
    · simp at hnil
  · obtain ⟨rfl, -⟩ | ⟨rest, rfl, hus⟩ := List.cons_eq_append_iff.mp heq
    · exact Or.inl rfl
    · have hrest : rest.countP (·.kind = .lparen) = rest.countP (·.kind = .rparen) := by
        simpa [hq] using hbalanced
      obtain rfl | ⟨q', hlast, hq'⟩ := h'.outermost hus hl hrest
      · exact Or.inr ⟨q, rfl, hq⟩
      · exact Or.inr ⟨q', by simp [List.getLast?_cons, hlast], hq'⟩
  · obtain ⟨rfl, -⟩ | ⟨rest, rfl, hinside⟩ := List.cons_eq_append_iff.mp heq
    · exact Or.inl rfl
    obtain ⟨closed, rfl, hclosed⟩ | ⟨inside, rfl, -⟩ := List.append_eq_append_iff.mp hinside
    · obtain ⟨-, hlast⟩ | ⟨behind, -, hnil⟩ := List.cons_eq_append_iff.mp hclosed
      · obtain ⟨rfl, -⟩ := List.cons.inj hlast
        rw [hl] at hr
        cases hr
      · simp at hnil
    · have hle := hus.countP_le rfl
      have hopen : (l' :: rest).countP (·.kind = .lparen) =
          rest.countP (·.kind = .lparen) + 1 := by
        simp [hl']
      have hclose : (l' :: rest).countP (·.kind = .rparen) =
          rest.countP (·.kind = .rparen) := by
        simp [hl']
      omega
termination_by ts.length

/-- Among data, where nothing is open and no quote mark stands in front, a parenthesis opens one of
them. -/
theorem IsData.outermost : ∀ {ts : List Token} {forms : List Form} {n : Nat},
    IsData ts forms n → ∀ {before after : List Token} {l : Token}, ts = before ++ l :: after →
    l.kind = .lparen → before.countP (·.kind = .lparen) = before.countP (·.kind = .rparen) →
    (∀ q, before.getLast? = some q → q.kind ≠ .quote) →
    ∃ form ∈ forms, ∃ us vs m, l :: after = us ++ vs ∧ IsDatum us form m
  | _, _, _, .nil, _, _, _, heq, _, _, _ => by simp at heq
  | _, _, _, @IsData.cons us vs form forms _ _ hdatum hdata, before, after, l, heq, hl, hbalanced,
      hquote => by
      obtain ⟨behind, rfl, hvs⟩ | ⟨rest, rfl, hrest⟩ := List.append_eq_append_iff.mp heq
      · have hbehind : behind.countP (·.kind = .lparen) = behind.countP (·.kind = .rparen) := by
          simpa [hdatum.balanced.countP_eq] using hbalanced
        obtain ⟨form', hmem, hform'⟩ := hdata.outermost hvs hl hbehind fun q hq =>
          hquote q (by simp [List.getLast?_append, hq])
        exact ⟨form', List.mem_cons_of_mem _ hmem, hform'⟩
      · obtain ⟨rfl, hvs⟩ | ⟨rest, rfl, rfl⟩ := List.cons_eq_append_iff.mp hrest
        · have hvs : vs = [] ++ l :: after := hvs
          obtain ⟨form', hmem, hform'⟩ := hdata.outermost hvs hl rfl (by simp)
          exact ⟨form', List.mem_cons_of_mem _ hmem, hform'⟩
        · obtain rfl | ⟨q, hlast, hq⟩ := hdatum.outermost rfl hl hbalanced
          · exact ⟨form, List.mem_cons_self, l :: rest, vs, _, rfl, hdatum⟩
          · exact absurd hq (hquote q hlast)

/-! ## Forms that look like a definition -/

/-- A form that looks like a definition of a name: a dotted list, or a list that begins with
`define` and has no other symbol behind it. -/
def Form.LooksLikeDefinition (form : Form) (name : String) : Prop :=
  (∃ items tail, form = .dotted items tail) ∨
    ∃ target rest, form = .list (.sym SpecialForm.define.name :: target :: rest) ∧
      ∀ other, target = .sym other → other = name

/-- Data that begin with an atom begin with a datum that is this atom. -/
theorem IsDatum.atom {us vs : List Token} {form : Form} {n : Nat} (h : IsDatum us form n)
    {t : Token} {rest : List Token} (heq : us ++ vs = t :: rest) (ht : t.kind.isAtom = true) :
    vs = rest ∧ (t.kind = .symbol → form = .sym t.text) ∧
      ∀ name, form = .sym name → name = t.text := by
  cases h with
  | symbol =>
      obtain ⟨rfl, rfl⟩ := List.cons.inj heq
      exact ⟨rfl, fun _ => rfl, fun name hname => (Form.sym.inj hname).symm⟩
  | number hkind =>
      obtain ⟨rfl, rfl⟩ := List.cons.inj heq
      exact ⟨rfl, by simp [hkind], by simp⟩
  | string hkind | quote hkind | empty hkind | list hkind | dotted hkind | loneTail hkind =>
      obtain ⟨rfl, -⟩ := List.cons.inj heq
      rw [hkind] at ht
      cases ht

theorem OpensDefinition.looksLikeDefinition {us vs : List Token} {name : String}
    (h : OpensDefinition (us ++ vs) name) (hnames : ∀ t ∈ us ++ vs, t.MarksNames) {form : Form}
    {n : Nat} (hdatum : IsDatum us form n) : form.LooksLikeDefinition name := by
  obtain ⟨l, keyword, target, after, heq, hl, hkeyword, rfl, hatom⟩ := h
  have hsymbol : keyword.kind = .symbol := by
    refine (hnames keyword (by simp [heq])).symbol ?_
    rw [hkeyword]
    decide
  cases hdatum with
  | number hkind | symbol hkind | string hkind | quote hkind =>
      obtain ⟨rfl, -⟩ := List.cons.inj heq
      rw [hl] at hkind
      cases hkind
  | empty _ hkind | loneTail _ hkind =>
      obtain ⟨-, heq⟩ := List.cons.inj heq
      obtain ⟨rfl, -⟩ := List.cons.inj heq
      rw [hsymbol] at hkind
      cases hkind
  | dotted => exact Or.inl ⟨_, _, rfl⟩
  | list _ hne hdata hr =>
      rw [List.cons_append] at heq
      obtain ⟨-, heq⟩ := List.cons.inj heq
      cases hdata with
      | nil => exact absurd rfl hne
      | cons hfirst hrest =>
          rw [List.append_assoc, List.append_assoc] at heq
          obtain ⟨heq, hdefine, -⟩ := hfirst.atom heq (by rw [hsymbol]; rfl)
          obtain rfl := hdefine hsymbol
          cases hrest with
          | nil =>
              obtain ⟨rfl, -⟩ := List.cons.inj heq
              rw [hr] at hatom
              cases hatom
          | cons hsecond _ =>
              rw [List.append_assoc] at heq
              obtain ⟨-, -, htarget⟩ := hsecond.atom heq hatom
              exact Or.inr ⟨_, _, by rw [hkeyword], htarget⟩

/-! ## Offered and bound -/

/-- The global frame of a session is there, whatever the session has been through. -/
theorem Session.global_lt_perform (store : Store) (limit : Int) (bindings : List (String × Value))
    (steps : List Step) :
    let session := (openOn store limit bindings).perform steps
    session.global < session.state.store.frames.size := by
  intro session
  have hlater := (openOn store limit bindings).extends_perform steps
  refine hlater.global ▸ Nat.lt_of_lt_of_le ?_ hlater.state.frames
  rw [openOn, newSession_defineAll]
  simp [Store.withFrame]

/-- **What the editor offers.** The index of a program that a session has run with success has the
names of exactly those definitions that tokens look like outside of all parentheses, and every such
name is bound globally, unless a quote mark stands right in front of those tokens. -/
theorem offered_names_bound (store : Store) (limit : Int) (bindings : List (String × Value))
    (steps : List Session.Step) (code : String) (v : Value) (later : Session)
    (h : ((Session.openOn store limit bindings).perform steps).run code = (.ok v, later)) :
    let tokens := (lex code.toList).tokens
    let names := (Index.ofBuffer code.toList).definitions.map Definition.name
    (∀ name, name ∈ names ↔
      ∃ before after, tokens = before ++ after ∧ OutermostDefinition before after name) ∧
    ∀ before after name, tokens = before ++ after → OutermostDefinition before after name →
      (∀ q, before.getLast? = some q → q.kind ≠ .quote) → later.binds name = true := by
  intro tokens names
  have hnames : ∀ t ∈ tokens, t.MarksNames := lex_marksNames code.toList
  obtain ⟨forms, hparse, hdotted, hdefines⟩ :=
    Session.defines_of_run (Session.global_lt_perform store limit bindings steps) h
  obtain ⟨haccepted, n, hdata, -⟩ := parse_eq_ok_iff.mp hparse
  refine ⟨Index.mem_names_ofBuffer haccepted, ?_⟩
  rintro before after name htokens ⟨hbalanced, hopens⟩ hquote
  obtain ⟨l, rest, rfl, hl⟩ : ∃ l rest, after = l :: rest ∧ l.kind = .lparen := by
    obtain ⟨l, keyword, target, rest, rfl, hl, -⟩ := hopens
    exact ⟨l, _, rfl, hl⟩
  obtain ⟨form, hmem, us, vs, m, hform, hdatum⟩ := hdata.outermost htokens hl hbalanced hquote
  rw [hform] at hopens htokens
  rw [htokens] at hnames
  have hlooks : form.LooksLikeDefinition name :=
    hopens.looksLikeDefinition (List.forall_mem_append.mp hnames).2 hdatum
  obtain ⟨items, tail, rfl⟩ | ⟨target, operands, rfl, htarget⟩ := hlooks
  · exact absurd hmem (hdotted items tail)
  · obtain ⟨other, value, hoperands, hbinds⟩ := hdefines _ hmem
    obtain ⟨rfl, rfl⟩ := List.cons.inj hoperands
    exact htarget other rfl ▸ hbinds

/-- One name of a program is defined and one is quoted only. -/
theorem offered_and_quoted :
    let code := "(define x 1) '(define y)"
    let names := (Index.ofBuffer code.toList).definitions.map Definition.name
    let session := (Session.openOn .empty 9 [("table", .nil)]).perform [.limit 4]
    let done := session.run code
    done.1 = .ok (.pair (.sym "define") (.pair (.sym "y") .nil)) ∧
      ("x" ∈ names ∧ done.2.binds "x" = true) ∧ "y" ∈ names := by
  intro code names session done
  have hanswer : done.1 = .ok (.pair (.sym "define") (.pair (.sym "y") .nil)) := by
    decide +kernel
  let front : List Token := [⟨.lparen, "(", 0⟩, ⟨.symbol, "define", 1⟩, ⟨.symbol, "x", 8⟩,
    ⟨.number, "1", 10⟩, ⟨.rparen, ")", 11⟩, ⟨.quote, "'", 13⟩]
  let quoted : List Token := [⟨.lparen, "(", 14⟩, ⟨.symbol, "define", 15⟩, ⟨.symbol, "y", 22⟩,
    ⟨.rparen, ")", 23⟩]
  have htokens : (lex code.toList).tokens = front ++ quoted := by decide +kernel
  have hfirst : OutermostDefinition [] (front ++ quoted) "x" :=
    ⟨rfl, _, _, _, _, rfl, rfl, rfl, rfl, rfl⟩
  have hsecond : OutermostDefinition front quoted "y" := ⟨rfl, _, _, _, _, rfl, rfl, rfl, rfl, rfl⟩
  obtain ⟨hnames, hbound⟩ :=
    offered_names_bound .empty 9 [("table", .nil)] [.limit 4] code _ done.2 (Prod.ext hanswer rfl)
  refine ⟨hanswer, ⟨(hnames "x").mpr ⟨[], _, htokens, hfirst⟩, ?_⟩,
    (hnames "y").mpr ⟨front, quoted, htokens, hsecond⟩⟩
  exact hbound [] _ "x" htokens hfirst (by simp)

/-- The name in a quoted definition is offered, and the program does not bind it. -/
theorem quoted_definition_offered :
    let code := "'(define x 1)"
    let done := (Session.start 1000).run code
    done.1 = .ok (.pair (.sym "define") (.pair (.sym "x") (.pair (.int 1) .nil))) ∧
      (Index.ofBuffer code.toList).definitions.map Definition.name = ["x"] ∧
      done.2.binds "x" = false := by
  decide +kernel

end TableLisp

import TableLisp.Editor.Index
import TableLisp.Proofs.Reader.Balanced
import TableLisp.Proofs.Reader.Joining

/-!
# Words and tokens

The words of a buffer and the tokens of a source are cut off the text as the same pieces
(`Word.collect_cons`), so as long as no piece fails to be a token they are the same, each with its
text and its offset (`words_of_lexFrom`). The editor knows the words only, and counts parentheses by
their text; for tokens this is to count them by their kind (`Token.MarksParens`).

Inside of parentheses the editor passes over balanced tokens: it notes no definition there, and comes
out as deep as it went in (`Index.Passes.of_balanced`). Data are balanced, hence so is the index of a
source that can be read.
-/

namespace TableLisp

open Text

/-- The word that a token is. -/
def Token.word (token : Token) : Word :=
  ⟨token.text.toList, token.offset⟩

/-! ## Words cut off a text -/

/-- The word that a piece is. A double quote that opens no string is as little a word as a blank. -/
def Piece.word? (piece : Piece) (offset : Nat) : Option Word :=
  match piece.shape with
  | .blank | .comment | .unclosed | .unexpected _ => none
  | .mark _ | .string | .atom => some ⟨piece.text, offset⟩

theorem Piece.word?_of_kind? {source : List Char} {offset : Nat} {piece : Piece}
    {kind : Option Token.Kind} (h : piece.kind? source offset = .ok kind) :
    piece.word? offset = (piece.token? kind offset).map Token.word := by
  obtain ⟨shape, text, rest⟩ := piece
  cases shape with
  | blank | comment | mark | string =>
      cases h
      simp [word?, token?, Token.word]
  | unclosed | unexpected => cases h
  | atom =>
      rw [kind?] at h
      cases hatom : atomKind source text offset with
      | error e => simp [hatom, Except.map] at h
      | ok kind' =>
          simp only [hatom, Except.map] at h
          cases h
          simp [word?, token?, Token.word]

namespace Word

/-- A double quote opens a string if there is another one to close it. -/
theorem collect_doubleQuote (offset : Nat) (done : List Word) (rest : List Char) :
    collect offset done ('"' :: rest) =
      match rest.dropWhile (· != '"') with
      | [] => collect (offset + 1) done rest
      | close :: later =>
        collect (offset + 1 + (rest.takeWhile (· != '"')).length + 1)
          (⟨'"' :: rest.takeWhile (· != '"') ++ [close], offset⟩ :: done) later := by
  have hblank : ¬ (isBlank '"' = true) := Bool.false_ne_true
  have hsemi : ('"' : Char) ≠ ';' := by decide
  have hparen : ¬ (('"' = '(' || '"' = ')' || '"' = '\'' : Bool) = true) := by decide
  rw [collect, if_neg hblank, if_neg hsemi, if_neg hparen, if_pos rfl]
  split <;> next hrest => simp [hrest]

theorem collect_cons (offset : Nat) (done : List Word) (c : Char) (rest : List Char) :
    collect offset done (c :: rest) =
      collect (offset + (Piece.cut c rest).text.length)
        (((Piece.cut c rest).word? offset).toList ++ done) (Piece.cut c rest).rest := by
  have hplace (n : Nat) : offset + 1 + n = offset + (n + 1) := by omega
  fun_cases Piece.cut c rest with
  | case1 hblank => simp [collect, hblank, Piece.word?]
  | case2 hblank hsemi => simp [collect, isBlank, hsemi, Piece.word?, hplace]
  | case3 hblank hsemi hq => simp [collect, isBlank, hq, Piece.word?]
  | case4 hblank hsemi hq hl => simp [collect, isBlank, hl, Piece.word?]
  | case5 hblank hsemi hq hl hr => simp [collect, isBlank, hr, Piece.word?]
  | case6 hblank hsemi hq hl hr hs hdrop => simp [hs, collect_doubleQuote, hdrop, Piece.word?]
  | case7 hblank hsemi hq hl hr hs close rest' hdrop =>
      simp [hs, collect_doubleQuote, hdrop, Piece.word?, hplace, Nat.add_assoc]
  | case8 hblank hsemi hq hl hr hs =>
      simp [collect, hblank, hsemi, hq, hl, hr, hs, Piece.word?, hplace]
  | case9 hblank hsemi hq hl hr hs hc =>
      exact absurd (Piece.isAtomChar_of_other hblank hsemi hq hl hr hs) hc

/-- The words found so far come first. -/
theorem prefix_collect : ∀ (offset : Nat) (done : List Word) (cs : List Char),
    done.reverse <+: collect offset done cs
  | _, done, [] => by simp [collect]
  | offset, done, c :: rest => by
      have hlater := prefix_collect (offset + (Piece.cut c rest).text.length)
        (((Piece.cut c rest).word? offset).toList ++ done) (Piece.cut c rest).rest
      rw [List.reverse_append] at hlater
      rw [collect_cons]
      exact (List.prefix_append ..).trans hlater
termination_by _ _ cs => cs.length
decreasing_by exact Piece.length_cut_rest c rest

end Word

/-- Tokens are words, and if lexing succeeds there are no other words. -/
theorem words_of_lexFrom (source : List Char) (offset : Nat) (done : List Token)
    (cs : List Char) :
    let lexed := lexFrom source offset done cs
    let words := Word.collect offset (done.map Token.word) cs
    lexed.tokens.map Token.word <+: words ∧
      (lexed.failure = none → lexed.tokens.map Token.word = words) := by
  fun_induction lexFrom source offset done cs with
  | case1 offset done => simp [Word.collect]
  | case2 offset done c rest piece e hkind =>
      have hearlier := Word.prefix_collect offset (done.map Token.word) (c :: rest)
      rw [← List.map_reverse] at hearlier
      exact ⟨hearlier, by rintro ⟨⟩⟩
  | case3 offset done c rest piece next hkind ih =>
      rw [Word.collect_cons, Piece.word?_of_kind? hkind]
      exact ih
  | case4 offset done c rest piece next kind hkind ih =>
      rw [Word.collect_cons, Piece.word?_of_kind? hkind]
      simp only [List.map_cons, Token.word, String.toList_ofList] at ih
      simpa [Piece.token?, Token.word] using ih

theorem words_of_lex {source : List Char} (h : (lex source).failure = none) :
    Word.ofBuffer source = (lex source).tokens.map Token.word :=
  ((words_of_lexFrom source 0 [] source).2 h).symm

/-! ## Parentheses -/

/-- Parentheses are told apart by their text as they are by their kind. -/
structure Token.MarksParens (token : Token) : Prop where
  lparen_iff : token.word.text = ['('] ↔ token.kind = .lparen
  rparen_iff : token.word.text = [')'] ↔ token.kind = .rparen

theorem atomKind_ne_paren {source text : List Char} {offset : Nat} {kind : Token.Kind}
    (h : atomKind source text offset = .ok kind) : kind ≠ .lparen ∧ kind ≠ .rparen := by
  unfold atomKind at h
  repeat' split at h
  all_goals cases h <;> exact ⟨Token.Kind.noConfusion, Token.Kind.noConfusion⟩

theorem Piece.marksParens {source : List Char} {offset : Nat} {c : Char} {rest : List Char}
    {kind : Token.Kind} (h : (cut c rest).kind? source offset = .ok (some kind)) :
    Token.MarksParens ⟨kind, .ofList (cut c rest).text, offset⟩ := by
  suffices hcut : ((cut c rest).text = ['('] ↔ kind = .lparen) ∧
      ((cut c rest).text = [')'] ↔ kind = .rparen) by
    rw [← String.toList_ofList (l := (cut c rest).text)] at hcut
    exact ⟨hcut.1, hcut.2⟩
  revert h
  fun_cases cut c rest with
  | case1 => rintro ⟨⟩
  | case2 => rintro ⟨⟩
  | case3 hblank hsemi hq => rintro ⟨⟩; simp [hq]
  | case4 hblank hsemi hq hl => rintro ⟨⟩; simp [hl]
  | case5 hblank hsemi hq hl hr => rintro ⟨⟩; simp [hr]
  | case6 => rintro ⟨⟩
  | case7 hblank hsemi hq hl hr hs close rest' hdrop => rintro ⟨⟩; simp [hs]
  | case8 hblank hsemi hq hl hr hs =>
      intro h
      cases hkind : atomKind source (c :: rest.takeWhile isAtomChar) offset with
      | error e => simp [kind?, hkind, Except.map] at h
      | ok kind' =>
          obtain rfl : kind' = kind := by simpa [kind?, hkind, Except.map] using h
          simp [hl, hr, atomKind_ne_paren hkind]
  | case9 => rintro ⟨⟩

theorem lex_marksParens (source : List Char) :
    ∀ token ∈ (lex source).tokens, token.MarksParens :=
  lex_forall Piece.marksParens

theorem countP_word {tokens : List Token} (h : ∀ token ∈ tokens, token.MarksParens) :
    (tokens.map Token.word).countP (·.text = ['(']) = tokens.countP (·.kind = .lparen) ∧
      (tokens.map Token.word).countP (·.text = [')']) = tokens.countP (·.kind = .rparen) := by
  simp only [List.countP_map]
  constructor
  · exact List.countP_congr fun token htoken => by simp [(h token htoken).lparen_iff]
  · exact List.countP_congr fun token htoken => by simp [(h token htoken).rparen_iff]

namespace Index

variable {buffer : List Char} {balance : Int} {definitions : List Definition}

theorem scan_balance : ∀ (words : List Word) (balance : Int) (definitions : List Definition),
    (scan buffer balance definitions words).1 =
      balance + words.countP (·.text = ['(']) - words.countP (·.text = [')'])
  | [], balance, definitions => by simp [scan]
  | word :: rest, balance, definitions => by
      rw [scan]
      split
      · next hl =>
          rw [scan_balance rest]
          simp [hl]
          omega
      · split
        · next hl hr =>
            rw [scan_balance rest]
            simp [hr]
            omega
        · next hl hr =>
            rw [scan_balance rest]
            simp [hl, hr]

/-! ## Balanced tokens inside of parentheses -/

theorem scan_other (buffer : List Char) (balance : Int) (definitions : List Definition)
    {token : Token} (h : token.MarksParens) (hl : token.kind ≠ .lparen)
    (hr : token.kind ≠ .rparen) (later : List Word) :
    scan buffer balance definitions (token.word :: later) =
      scan buffer balance definitions later := by
  rw [scan, if_neg (mt h.lparen_iff.mp hl), if_neg (mt h.rparen_iff.mp hr)]

theorem scan_rparen (buffer : List Char) (balance : Int) (definitions : List Definition)
    {token : Token} (h : token.MarksParens) (hr : token.kind = .rparen) (later : List Word) :
    scan buffer balance definitions (token.word :: later) =
      scan buffer (balance - 1) definitions later := by
  have hl : token.word.text ≠ ['('] := by
    rw [h.rparen_iff.mpr hr]
    decide
  rw [scan, if_neg hl, if_pos (h.rparen_iff.mpr hr)]

/-- Inside of parentheses the scan passes over some tokens. -/
def Passes (ts : List Token) : Prop :=
  ∀ (buffer : List Char) {balance : Int} (definitions : List Definition) (later : List Word),
    0 < balance → scan buffer balance definitions (ts.map Token.word ++ later) =
      scan buffer balance definitions later

/-- Only the outermost parentheses may hold a definition. -/
theorem scan_parens (buffer : List Char) (definitions : List Definition) {l r : Token}
    {ts : List Token} (h : l.MarksParens) (hl : l.kind = .lparen) (hts : Passes ts)
    (h' : r.MarksParens) (hr : r.kind = .rparen) (later : List Word) {balance : Int}
    (hbalance : 0 ≤ balance) :
    let found := Definition.ofWords? buffer (ts.map Token.word ++ r.word :: later)
    scan buffer balance definitions ((l :: (ts ++ [r])).map Token.word ++ later) =
      scan buffer balance
        (if balance = 0 then (found.map (·.put definitions)).getD definitions else definitions)
        later := by
  intro found
  have hwords : (l :: (ts ++ [r])).map Token.word ++ later =
      l.word :: (ts.map Token.word ++ r.word :: later) := by simp
  have houtermost : balance + 1 = 1 ↔ balance = 0 := by omega
  rw [hwords, scan, if_pos (h.lparen_iff.mpr hl)]
  simp only [houtermost]
  rw [hts _ _ _ (Int.lt_add_one_of_le hbalance), scan_rparen _ _ _ h' hr, Int.add_sub_cancel]
  split <;> rfl

namespace Passes

theorem nil : Passes [] :=
  fun _ _ _ _ _ => rfl

theorem append {ts us : List Token} (h : Passes ts) (h' : Passes us) : Passes (ts ++ us) := by
  intro buffer balance definitions later hinside
  rw [List.map_append, List.append_assoc, h _ _ _ hinside, h' _ _ _ hinside]

theorem cons {token : Token} {ts : List Token} (h : token.MarksParens)
    (hl : token.kind ≠ .lparen) (hr : token.kind ≠ .rparen) (hts : Passes ts) :
    Passes (token :: ts) := by
  intro buffer balance definitions later hinside
  rw [List.map_cons, List.cons_append, scan_other _ _ _ h hl hr, hts _ _ _ hinside]

theorem parens {l r : Token} {ts : List Token} (h : l.MarksParens) (hl : l.kind = .lparen)
    (hts : Passes ts) (h' : r.MarksParens) (hr : r.kind = .rparen) :
    Passes (l :: (ts ++ [r])) := by
  intro buffer balance definitions later hinside
  rw [scan_parens _ _ h hl hts h' hr _ (Int.le_of_lt hinside), if_neg (Int.ne_of_gt hinside)]

theorem of_balanced {ts : List Token} (h : Balanced ts) (hts : ∀ t ∈ ts, t.MarksParens) :
    Passes ts := by
  induction h with
  | nil => exact .nil
  | cons hl hr _ ih =>
      obtain ⟨ht, hts⟩ := List.forall_mem_cons.mp hts
      exact .cons ht hl hr (ih hts)
  | parens hl _ hr _ ih ih' =>
      obtain ⟨hopen, hts⟩ := List.forall_mem_cons.mp hts
      obtain ⟨hinside, hts⟩ := List.forall_mem_append.mp hts
      obtain ⟨hclose, hrest⟩ := List.forall_mem_cons.mp hts
      rw [List.append_cons, ← List.cons_append]
      exact (Passes.parens hopen hl (ih hinside) hclose hr).append (ih' hrest)

end Passes

/-- Data have as many closing parentheses as opening ones. -/
theorem balance_of_data {ts : List Token} {forms : List Form} {n : Nat} (h : IsData ts forms n)
    (hts : ∀ t ∈ ts, t.MarksParens) (buffer : List Char) :
    (scan buffer 0 [] (ts.map Token.word)).1 = 0 := by
  obtain ⟨hopen, hclose⟩ := countP_word hts
  rw [scan_balance, hopen, hclose, h.balanced.countP_eq, Int.zero_add, Int.sub_self]

theorem balance_ofBuffer {source : List Char} (h : (lex source).failure = none) :
    (ofBuffer source).balance =
      (scan source 0 [] ((lex source).tokens.map Token.word)).1 := by
  rw [← words_of_lex h]
  rfl

end Index

/-! ## The editor and the reader -/

/-- **Words and tokens.** The tokens that a source is lexed into, with their texts and offsets, are
the first words that an editor finds in it, and all of them if lexing succeeds. The index of such a
source then has for its balance the number of its opening parentheses less that of its closing
ones, and if the source is read, at whatever limit, this is zero. -/
theorem words_of_source (source : List Char) :
    let tokens := (lex source).tokens
    let words := Word.ofBuffer source
    let balance := (Index.ofBuffer source).balance
    tokens.map Token.word <+: words ∧
    ((lex source).failure = none →
      tokens.map Token.word = words ∧
      balance = tokens.countP (·.kind = .lparen) - tokens.countP (·.kind = .rparen)) ∧
    (∀ limit forms, parse limit source = .ok forms → balance = 0) := by
  intro tokens words balance
  have hparens := lex_marksParens source
  refine ⟨(words_of_lexFrom source 0 [] source).1, fun h => ⟨(words_of_lex h).symm, ?_⟩,
    fun limit forms h => ?_⟩
  · obtain ⟨hopen, hclose⟩ := countP_word hparens
    simp only [balance]
    rw [Index.balance_ofBuffer h, Index.scan_balance, hopen, hclose, Int.zero_add]
  · obtain ⟨haccepted, n, hdata, -⟩ := parse_eq_ok_iff.mp h
    simp only [balance]
    rw [Index.balance_ofBuffer haccepted, Index.balance_of_data hdata hparens]

end TableLisp

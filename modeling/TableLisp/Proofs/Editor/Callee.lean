import Mathlib.Data.List.TakeWhile
import TableLisp.Editor.Cursor
import TableLisp.Proofs.Editor.Words
import TableLisp.Proofs.Reader.Coverage

/-!
# The callee in front of the cursor

For signature help the editor looks for the last opening parenthesis in front of the cursor, by its
character, and takes the word behind it. The call that the cursor is in is another thing: its
parenthesis is the innermost one that is still open, and its head is the token behind that
(`openHead?`). If the last parenthesis is a token and an unbroken token stands behind it, with blanks
around (`LastCall`), the word is this token, and it is the head of the call exactly if nothing is
closed behind it (`callee_of_last_call`).
-/

namespace TableLisp

open Text

/-! ## Words behind a parenthesis -/

namespace Cursor

/-- The characters that a word behind a parenthesis consists of. -/
def isCalleeChar (c : Char) : Bool :=
  !(isBlank c || c == ')')

variable {before after : List Char}

theorem behind_last_parenthesis (h : '(' ∉ after) :
    ((before ++ '(' :: after).reverse.takeWhile (· != '(')).reverse = after := by
  have hafter : ∀ c ∈ after.reverse, (c != '(') = true := by
    intro c hc
    rw [bne_iff_ne]
    rintro rfl
    exact h (List.mem_reverse.mp hc)
  rw [List.reverse_append, List.reverse_cons, List.append_assoc,
    List.takeWhile_append_of_pos hafter]
  simp

/-- Behind what begins a text once it is trimmed, there is nothing left but blanks. -/
theorem dropWhile_eq_trim_append (cs : List Char) :
    ∃ blanks, (∀ c ∈ blanks, isBlank c = true) ∧ cs.dropWhile isBlank = trim cs ++ blanks := by
  refine ⟨((cs.dropWhile isBlank).reverse.takeWhile isBlank).reverse, fun c hc => ?_, ?_⟩
  · exact List.all_eq_true.mp List.all_takeWhile c (List.mem_reverse.mp hc)
  · rw [trim, trimBy, ← List.reverse_append, List.takeWhile_append_dropWhile, List.reverse_reverse]

theorem isEmpty_trim (cs : List Char) : (trim cs).isEmpty = cs.all isBlank := by
  rw [Bool.eq_iff_iff, List.isEmpty_iff, List.all_eq_true, ← List.dropWhile_eq_nil_iff, trim,
    trimBy, List.reverse_eq_nil_iff]
  constructor
  · intro h
    cases hdrop : cs.dropWhile isBlank with
    | nil => rfl
    | cons c rest =>
        have hblank : isBlank c = true := by
          refine List.dropWhile_eq_nil_iff.mp h c ?_
          rw [hdrop]
          exact List.mem_reverse.mpr List.mem_cons_self
        have hstop := List.head?_dropWhile_not isBlank cs
        rw [hdrop] at hstop
        simp [hblank] at hstop
  · intro h
    rw [h]
    rfl

/-- What is trimmed from the end is not part of the first word. -/
theorem takeWhile_trim (cs : List Char) :
    (trim cs).takeWhile isCalleeChar = (cs.dropWhile isBlank).takeWhile isCalleeChar := by
  obtain ⟨blanks, hblanks, heq⟩ := dropWhile_eq_trim_append cs
  rw [heq]
  cases blanks with
  | nil => rw [List.append_nil]
  | cons c blanks =>
      have hstop : isCalleeChar c = false := by simp [isCalleeChar, hblanks c List.mem_cons_self]
      rw [takeWhile_stop hstop]

theorem callee?_of_last (h : '(' ∉ after) : callee? (before ++ '(' :: after) =
    if after.all isBlank then none
    else some ((after.dropWhile isBlank).takeWhile isCalleeChar) := by
  have hmem : (before ++ '(' :: after).contains '(' = true := by simp
  rw [callee?, if_pos hmem, behind_last_parenthesis h, ← takeWhile_trim, ← isEmpty_trim]
  rfl

theorem exists_last_parenthesis {source : List Char} (h : '(' ∈ source) :
    ∃ before after, source = before ++ '(' :: after ∧ '(' ∉ after := by
  obtain ⟨after, before, heq, hafter⟩ := List.eq_append_cons_of_mem (List.mem_reverse.mpr h)
  refine ⟨before.reverse, after.reverse, ?_, mt List.mem_reverse.mp hafter⟩
  rw [← List.reverse_reverse source, heq]
  simp

/-- There is no word exactly if nothing but blanks follows the last parenthesis, or if there is no
parenthesis. -/
theorem callee?_eq_none_iff {source : List Char} :
    callee? source = none ↔ ∀ before after, source = before ++ '(' :: after → '(' ∉ after →
      ∀ c ∈ after, isBlank c = true := by
  by_cases hmem : '(' ∈ source
  · constructor
    · rintro hnone before after rfl hlast
      rw [callee?_of_last hlast] at hnone
      by_contra hword
      rw [if_neg (mt List.all_eq_true.mp hword)] at hnone
      cases hnone
    · intro hblank
      obtain ⟨before, after, rfl, hlast⟩ := exists_last_parenthesis hmem
      rw [callee?_of_last hlast,
        if_pos (List.all_eq_true.mpr (hblank before after rfl hlast))]
  · have hnone : callee? source = none := by
      rw [callee?, if_neg (by simpa using hmem)]
    refine iff_of_true hnone fun before after heq => ?_
    simp [heq] at hmem

/-- A word between blanks and a blank, a closing parenthesis or the end. -/
theorem callee?_of_word {blanks word rest : List Char} (hlast : '(' ∉ blanks ++ (word ++ rest))
    (hblanks : ∀ c ∈ blanks, isBlank c = true) (hword : ∀ c ∈ word, isCalleeChar c = true)
    (hne : word ≠ []) (hrest : ∀ c, rest.head? = some c → isCalleeChar c = false) :
    callee? (before ++ '(' :: (blanks ++ (word ++ rest))) = some word := by
  obtain ⟨c, word', rfl⟩ := List.exists_cons_of_ne_nil hne
  have hc : isBlank c = false := by
    have := hword c List.mem_cons_self
    simp only [isCalleeChar, Bool.not_eq_true', Bool.or_eq_false_iff] at this
    exact this.1
  have hdrop : (blanks ++ (c :: word' ++ rest)).dropWhile isBlank = c :: word' ++ rest := by
    rw [List.dropWhile_append_of_pos hblanks, List.cons_append,
      List.dropWhile_cons_of_neg (by simp [hc])]
  have htake : (c :: word' ++ rest).takeWhile isCalleeChar = c :: word' := by
    rw [List.takeWhile_append_of_pos hword]
    cases rest with
    | nil => simp
    | cons d rest => simp [hrest d rfl]
  rw [callee?_of_last hlast, hdrop, htake, if_neg]
  intro hall
  rw [List.all_eq_true.mp hall c (by simp)] at hc
  cases hc

end Cursor

/-! ## Open calls -/

/-- The heads of the calls that some tokens leave open, the innermost first. `heads` has those of
the calls that were open before; a parenthesis that nothing follows has no head yet. -/
def openHeads (heads : List (Option Token)) : List Token → List (Option Token)
  | [] => heads
  | token :: rest =>
    match token.kind with
    | .lparen => openHeads (rest.head? :: heads) rest
    | .rparen => openHeads heads.tail rest
    | _ => openHeads heads rest

/-- The head of the innermost call that some tokens leave open. -/
def openHead? (tokens : List Token) : Option Token :=
  (openHeads [] tokens).head?.join

theorem openHeads_lparen {heads : List (Option Token)} {token : Token} {rest : List Token}
    (h : token.kind = .lparen) :
    openHeads heads (token :: rest) = openHeads (rest.head? :: heads) rest := by
  simp only [openHeads, h]

/-- Where nothing is opened, each closing parenthesis closes one of the calls from before. -/
theorem openHeads_of_no_lparen : ∀ {tokens : List Token} (heads : List (Option Token)),
    (∀ token ∈ tokens, token.kind ≠ .lparen) →
      openHeads heads tokens = heads.drop (tokens.countP (·.kind = .rparen))
  | [], _, _ => by simp [openHeads]
  | token :: rest, heads, h => by
      obtain ⟨htoken, hrest⟩ := List.forall_mem_cons.mp h
      rw [openHeads]
      split
      · next hl => exact absurd hl htoken
      · next hr => simp [openHeads_of_no_lparen heads.tail hrest, hr]
      · next hl hr =>
          rw [openHeads_of_no_lparen heads hrest, List.countP_cons_of_neg]
          simpa using hr

/-- The heads of open calls are among the tokens. -/
theorem openHeads_append (l : Token) (later : List Token) :
    ∀ (before : List Token) (heads : List (Option Token)), ∃ heads',
      openHeads heads (before ++ l :: later) = openHeads heads' (l :: later) ∧
        ∀ head ∈ heads', head ∈ heads ∨ head ∈ (before ++ [l]).map some
  | [], heads => ⟨heads, rfl, fun _ hhead => .inl hhead⟩
  | token :: before, heads => by
      suffices hfirst : ∃ heads₁,
          openHeads heads (token :: (before ++ l :: later)) =
            openHeads heads₁ (before ++ l :: later) ∧
          ∀ head ∈ heads₁, head ∈ heads ∨ head ∈ (before ++ [l]).map some by
        obtain ⟨heads₁, hstep, hheads₁⟩ := hfirst
        obtain ⟨heads', hrest, hheads'⟩ := openHeads_append l later before heads₁
        refine ⟨heads', hstep.trans hrest, fun head hhead => ?_⟩
        have hmem := (hheads' head hhead).elim (hheads₁ head) .inr
        exact hmem.imp_right (List.mem_cons_of_mem (some token))
      rw [openHeads]
      split
      · refine ⟨_, rfl, List.forall_mem_cons.mpr ⟨.inr ?_, fun _ => .inl⟩⟩
        cases before <;> simp
      · exact ⟨_, rfl, fun _ hhead => .inl (List.mem_of_mem_tail hhead)⟩
      · exact ⟨_, rfl, fun _ => .inl⟩

/-- If no parenthesis is opened later, a call stays open exactly if none is closed later. -/
theorem openHead?_eq_some_iff {before after : List Token} {l t : Token} (hl : l.kind = .lparen)
    (hafter : ∀ u ∈ t :: after, u.kind ≠ .lparen) (hnew : t ∉ before ++ [l]) :
    openHead? (before ++ l :: t :: after) = some t ↔ ∀ u ∈ t :: after, u.kind ≠ .rparen := by
  obtain ⟨heads, heq, hheads⟩ := openHeads_append l (t :: after) before []
  rw [openHead?, heq, openHeads_lparen hl, openHeads_of_no_lparen _ hafter]
  by_cases hclosed : ∀ u ∈ t :: after, u.kind ≠ .rparen
  · have hcount : (t :: after).countP (·.kind = .rparen) = 0 :=
      List.countP_eq_zero.mpr fun u hu => by simpa using hclosed u hu
    rw [hcount]
    exact iff_of_true rfl hclosed
  · obtain ⟨n, hcount⟩ : ∃ n, (t :: after).countP (·.kind = .rparen) = n + 1 := by
      refine Nat.exists_eq_succ_of_ne_zero fun hzero => hclosed fun u hu => ?_
      simpa using List.countP_eq_zero.mp hzero u hu
    rw [hcount, List.drop_succ_cons]
    refine iff_of_false (fun hopen => ?_) hclosed
    have hhead : some t ∈ heads.drop n := List.mem_of_mem_head? (Option.join_eq_some_iff.mp hopen)
    rcases hheads _ (List.mem_of_mem_drop hhead) with hnil | hmem
    · cases hnil
    · exact hnew (by simpa using hmem)

/-! ## The last call -/

/-- The last parenthesis of a source is a token, and behind it stands a token without a blank or a
closing parenthesis in its text, as every atom is. It is separated from the parenthesis by blanks
only and is followed by a blank, by a closing parenthesis or by the end. -/
structure LastCall (source : List Char) (before : List Token) (l t : Token) (after : List Token) :
    Prop where
  tokens : (lex source).tokens = before ++ l :: t :: after
  opens : l.kind = .lparen
  last : '(' ∉ source.drop l.stop
  unbroken : ∀ c ∈ t.text.toList, Cursor.isCalleeChar c = true
  gap : ∀ c ∈ source.extract l.stop t.offset, isBlank c = true
  ends : ∀ c, source[t.stop]? = some c → isBlank c = true ∨ c = ')'

namespace LastCall

variable {source : List Char} {before after : List Token} {l t : Token}

theorem drop_eq_extract_append {i j : Nat} (h : i ≤ j) :
    source.drop i = source.extract i j ++ source.drop j := by
  have hsplit := List.take_append_drop (j - i) (source.drop i)
  rw [List.drop_drop, Nat.add_sub_cancel' h] at hsplit
  rw [List.extract_eq_take_drop, hsplit]

theorem covered (h : LastCall source before l t after) :
    ∃ stop, Covered source (before ++ l :: t :: after) stop := by
  obtain ⟨rounds, stop, hscan, -⟩ := exists_scan source
  exact ⟨stop, h.tokens ▸ hscan.covered⟩

/-- What is left of a source at one of its tokens begins with the text of the token. -/
theorem drop_token (h : LastCall source before l t after) {u : Token}
    (hu : u ∈ before ++ l :: t :: after) :
    source.drop u.offset = u.text.toList ++ source.drop u.stop := by
  obtain ⟨stop, hcovered⟩ := h.covered
  rw [← (hcovered.spelled u hu).2]
  exact drop_eq_extract_append (Nat.le_add_right ..)

theorem text_of_lparen (h : LastCall source before l t after) {u : Token}
    (hu : u ∈ before ++ l :: t :: after) (hl : u.kind = .lparen) : u.text.toList = ['('] :=
  (lex_marksParens source u (h.tokens ▸ hu)).lparen_iff.mpr hl

theorem stop_le (h : LastCall source before l t after) : ∀ u ∈ t :: after, l.stop ≤ u.offset := by
  obtain ⟨stop, hcovered⟩ := h.covered
  have hbehind := (List.pairwise_cons.mp (List.pairwise_append.mp hcovered.apart).2.1).1
  exact fun u hu => (hbehind u hu).2

theorem word (h : LastCall source before l t after) :
    Cursor.callee? source = some t.text.toList := by
  obtain ⟨stop, hcovered⟩ := h.covered
  have hl : l ∈ before ++ l :: t :: after := by simp
  have ht : t ∈ before ++ l :: t :: after := by simp
  have hbehind : source.drop l.stop =
      source.extract l.stop t.offset ++ (t.text.toList ++ source.drop t.stop) := by
    rw [← h.drop_token ht]
    exact drop_eq_extract_append (h.stop_le t List.mem_cons_self)
  have hsource : source = source.take l.offset ++ '(' ::
      (source.extract l.stop t.offset ++ (t.text.toList ++ source.drop t.stop)) := by
    have hopen := h.drop_token hl
    rw [h.text_of_lparen hl h.opens, hbehind] at hopen
    rw [← List.singleton_append, ← hopen, List.take_append_drop]
  have hlast := h.last
  rw [hbehind] at hlast
  rw [hsource]
  refine Cursor.callee?_of_word hlast h.gap h.unbroken ?_ fun c hc => ?_
  · exact mt String.toList_eq_nil_iff.mp (hcovered.spelled t ht).1
  · rw [List.head?_drop] at hc
    simp only [Cursor.isCalleeChar, Bool.not_eq_false', Bool.or_eq_true, beq_iff_eq]
    exact h.ends c hc

/-- No other parenthesis is opened behind the last one. -/
theorem no_lparen (h : LastCall source before l t after) :
    ∀ u ∈ t :: after, u.kind ≠ .lparen := by
  intro u hu hl
  have hmem : u ∈ before ++ l :: t :: after :=
    List.mem_append_right before (List.mem_cons_of_mem l hu)
  refine h.last ?_
  rw [drop_eq_extract_append (h.stop_le u hu), h.drop_token hmem, h.text_of_lparen hmem hl]
  simp

theorem fresh (h : LastCall source before l t after) : t ∉ before ++ [l] := by
  obtain ⟨stop, hcovered⟩ := h.covered
  have hapart := hcovered.apart
  rw [List.append_cons] at hapart
  intro hmem
  have hlt := (List.pairwise_append.mp hapart).2.2 t hmem t List.mem_cons_self
  exact absurd hlt.1 (Nat.lt_irrefl _)

theorem closed_iff (h : LastCall source before l t after) :
    openHead? (lex source).tokens = some t ↔ ∀ u ∈ after, u.kind ≠ .rparen := by
  rw [h.tokens, openHead?_eq_some_iff h.opens h.no_lparen h.fresh, List.forall_mem_cons,
    and_iff_right]
  intro hr
  have ht : t ∈ before ++ l :: t :: after := by simp
  have hclose : t.text.toList = [')'] :=
    (lex_marksParens source t (h.tokens ▸ ht)).rparen_iff.mpr hr
  have hbroken := h.unbroken ')' (by simp [hclose])
  cases hbroken

end LastCall

/-- **The callee in front of the cursor.** The editor finds none exactly if there is nothing but
blanks behind the last parenthesis that is written in front of the cursor, or no parenthesis at all.
If that parenthesis is a token and behind it, with blanks around, stands a token that has no blank
or closing parenthesis in its text, the callee is this token, and it is the head of the innermost
call that is still open exactly if nothing is closed behind it. -/
theorem callee_of_last_call (source : List Char) :
    (Cursor.callee? source = none ↔ ∀ before after, source = before ++ '(' :: after →
      '(' ∉ after → ∀ c ∈ after, isBlank c = true) ∧
    (∀ before l t after, LastCall source before l t after →
      Cursor.callee? source = some t.text.toList ∧
      (openHead? (lex source).tokens = some t ↔ ∀ u ∈ after, u.kind ≠ .rparen)) :=
  ⟨Cursor.callee?_eq_none_iff, fun _ _ _ _ h => ⟨h.word, h.closed_iff⟩⟩

/-- Two calls are open, and the cursor is in the inner one, behind a quoted symbol. -/
theorem callee_of_open_call :
    let source := "(define x (assoc 'k".toList
    let l : Token := ⟨.lparen, "(", 10⟩
    let t : Token := ⟨.symbol, "assoc", 11⟩
    let before : List Token := [⟨.lparen, "(", 0⟩, ⟨.symbol, "define", 1⟩, ⟨.symbol, "x", 8⟩]
    let after : List Token := [⟨.quote, "'", 17⟩, ⟨.symbol, "k", 18⟩]
    LastCall source before l t after ∧ Cursor.callee? source = some "assoc".toList ∧
      openHead? (lex source).tokens = some t := by
  intro source l t before after
  have hcall : LastCall source before l t after :=
    { tokens := by decide +kernel
      opens := rfl
      last := by decide
      unbroken := List.all_eq_true.mp (by decide)
      gap := List.all_eq_true.mp (by decide)
      ends := by
        intro c hc
        have hblank : source[t.stop]? = some ' ' := by decide
        obtain rfl := Option.some.inj (hblank.symm.trans hc)
        exact .inl rfl }
  obtain ⟨hcallee, hopen⟩ := (callee_of_last_call source).2 before l t after hcall
  exact ⟨hcall, hcallee, hopen.mpr (by decide)⟩

/-- What the editor finds is not the head of the call in which the text ends: where the last call is
closed, where the last parenthesis is none of the program, and where the token behind it has a blank
in its text or no blanks around. -/
theorem callee_of_closed_call :
    let found (text : String) := (Cursor.callee? text.toList).map String.ofList
    let head (text : String) := (openHead? (lex text.toList).tokens).map Token.text
    let answers (text : String) := ((lex text.toList).failure, found text, head text)
    found "(f (g)" ≠ head "(f (g)" ∧
      answers "(f (g)" = (none, some "g", some "f") ∧
      answers "(f)" = (none, some "f", none) ∧
      answers "(f \"(g\"" = (none, some "g\"", some "f") ∧
      answers "(f ; (g\n" = (none, some "g", some "f") ∧
      answers "(f'x" = (none, some "f'x", some "f") ∧
      answers "(;g\nf" = (none, some ";g", some "f") ∧
      answers "('f" = (none, some "'f", some "'") ∧
      answers "(\"a b\"" = (none, some "\"a", some "\"a b\"") := by
  decide +kernel

end TableLisp

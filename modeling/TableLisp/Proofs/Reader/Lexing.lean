import TableLisp.Proofs.Text.Numeral
import TableLisp.Reader.Token

/-!
# Lexing written text

Lexing goes through a text from left to right, so what it makes of the front of a text does not
depend on the tokens before it, and depends on what follows only where an atom must end.
`Lexes offset cs rest ts` says that the characters `cs`, found at `offset` in front of `rest`, are
the tokens `ts`; `Lexes.append` composes such facts along a text.

Below it are the pieces that forms are written with: blanks, parentheses, the dot, numerals, symbols
and strings. The other way round, `lex_wellSpelled` says what the text of a token may be.
-/

namespace TableLisp

open Text

/-! ## Atoms -/

/-- The characters of a symbol: atom characters that are no dot and do not begin a numeral. -/
def isSymbolName (name : List Char) : Bool :=
  !name.isEmpty && name.all isAtomChar && name != ['.'] && !Numeral.beginsPlain name

theorem isAtomChar_of_isSymbolName {name : List Char} (h : isSymbolName name = true) :
    ∀ c ∈ name, isAtomChar c = true := by
  simp only [isSymbolName, Bool.and_eq_true, List.all_eq_true] at h
  exact h.1.1.2

theorem ne_nil_of_isSymbolName {name : List Char} (h : isSymbolName name = true) : name ≠ [] := by
  rintro rfl
  cases h

theorem atomKind_of_isSymbolName {name : List Char} (h : isSymbolName name = true)
    (source : List Char) (offset : Nat) : atomKind source name offset = .ok .symbol := by
  simp only [isSymbolName, Bool.and_eq_true, Bool.not_eq_true', bne_iff_ne] at h
  obtain ⟨⟨-, hdot⟩, hbegins⟩ := h
  have hplain : Numeral.isPlain name = false := by
    rw [← Bool.not_eq_true]
    intro hplain
    rw [Numeral.beginsPlain_of_isPlain hplain] at hbegins
    cases hbegins
  simp [atomKind, hdot, hplain, hbegins]

theorem isAtomChar_of_isDigit {c : Char} (h : c.isDigit = true) : isAtomChar c = true := by
  have hne (mark : Char) (hmark : mark.isDigit = false) : (c == mark) = false := by
    rw [beq_eq_false_iff_ne]
    rintro rfl
    rw [h] at hmark
    cases hmark
  simp [isAtomChar, isBlank_of_isDigit h, hne '(' rfl, hne ')' rfl, hne '\'' rfl, hne '"' rfl,
    hne ';' rfl]

theorem isAtomChar_of_mem_text {n : Int} {c : Char} (h : c ∈ (Numeral.text n).toList) :
    isAtomChar c = true := by
  cases n with
  | ofNat n =>
      rw [show Int.ofNat n = (n : Int) from rfl, Numeral.toList_text_ofNat] at h
      exact isAtomChar_of_isDigit (Numeral.isDigit_toDigits h)
  | negSucc n =>
      rw [Numeral.toList_text_negSucc] at h
      rcases List.mem_cons.mp h with rfl | h
      · decide
      · exact isAtomChar_of_isDigit (Numeral.isDigit_toDigits h)

/-- An integer of 64 bits has far fewer digits than a numeral may have. -/
theorem length_text_le_maxDigits {n : Int} (h : inWordRange n = true) :
    (Numeral.unsigned (Numeral.text n).toList).length ≤ Numeral.maxDigits := by
  have hrange : n.natAbs < 10 ^ 19 := by
    simp only [inWordRange, Bool.and_eq_true, decide_eq_true_eq] at h
    omega
  have hlength : (Nat.toDigits 10 n.natAbs).length ≤ 19 :=
    (Nat.length_toDigits_le_iff (by decide) (by decide)).mpr hrange
  rw [Numeral.unsigned_text]
  exact Nat.le_trans hlength (by decide)

theorem isAtomChar_of_isBlank {c : Char} (h : isBlank c = true) : isAtomChar c = false := by
  simp [isAtomChar, h]

theorem breaks_of_not_isAtomChar {c : Char} (h : isAtomChar c = false) :
    isBlank c = true ∨ c ∈ ['(', ')', '\'', '"', ';'] := by
  simp only [isAtomChar, Bool.not_eq_false', Bool.or_eq_true, beq_iff_eq] at h
  simp only [List.mem_cons, List.not_mem_nil, or_false]
  simpa only [or_assoc] using h

/-- Text before which an atom ends. -/
def EndsAtom (rest : List Char) : Prop :=
  ∀ c, rest.head? = some c → isAtomChar c = false

theorem endsAtom_nil : EndsAtom [] := by
  rintro c ⟨⟩

theorem endsAtom_cons {c : Char} (h : isAtomChar c = false) (rest : List Char) :
    EndsAtom (c :: rest) := by
  rintro _ ⟨⟩
  exact h

theorem takeWhile_atom {cs rest : List Char} (hcs : ∀ c ∈ cs, isAtomChar c = true)
    (hrest : EndsAtom rest) : (cs ++ rest).takeWhile isAtomChar = cs := by
  rw [List.takeWhile_append_of_pos hcs]
  cases rest with
  | nil => simp
  | cons c rest => simp [hrest c rfl]

theorem dropWhile_atom {cs rest : List Char} (hcs : ∀ c ∈ cs, isAtomChar c = true)
    (hrest : EndsAtom rest) : (cs ++ rest).dropWhile isAtomChar = rest := by
  rw [List.dropWhile_append_of_pos hcs]
  cases rest with
  | nil => rfl
  | cons c rest => simp [hrest c rfl]

/-! ## Runs of characters

An atom goes on for as long as there are atom characters, a string and a comment up to a mark.
-/

theorem forall_isAtomChar {c : Char} (hc : isAtomChar c = true) (cs : List Char) :
    ∀ d ∈ c :: cs.takeWhile isAtomChar, isAtomChar d = true :=
  List.forall_mem_cons.mpr ⟨hc, List.all_eq_true.mp List.all_takeWhile⟩

theorem endsAtom_dropWhile (cs : List Char) : EndsAtom (cs.dropWhile isAtomChar) := by
  intro c hc
  have hstop := List.head?_dropWhile_not isAtomChar cs
  rw [hc] at hstop
  simpa using hstop

theorem not_mem_takeWhile_ne (mark : Char) (cs : List Char) :
    mark ∉ cs.takeWhile (· != mark) := by
  intro hmem
  have hne := List.all_eq_true.mp List.all_takeWhile _ hmem
  rw [bne_self_eq_false] at hne
  cases hne

theorem eq_of_dropWhile_ne {mark c : Char} {cs later : List Char}
    (h : cs.dropWhile (· != mark) = c :: later) : c = mark := by
  simpa [h] using List.head?_dropWhile_not (· != mark) cs

namespace Piece

theorem cut_atom {c : Char} {cs rest : List Char} (hc : isAtomChar c = true)
    (hcs : ∀ c ∈ cs, isAtomChar c = true) (hrest : EndsAtom rest) :
    cut c (cs ++ rest) = ⟨.atom, c :: cs, rest⟩ := by
  have hother := hc
  simp only [isAtomChar, Bool.not_eq_true', Bool.or_eq_false_iff, beq_eq_false_iff_ne] at hother
  obtain ⟨⟨⟨⟨⟨hblank, hl⟩, hr⟩, hq⟩, hs⟩, hsemi⟩ := hother
  simp [cut, hc, hblank, hl, hr, hq, hs, hsemi, takeWhile_atom hcs hrest,
    dropWhile_atom hcs hrest]

theorem cut_string {cs : List Char} (hcs : '"' ∉ cs) (rest : List Char) :
    cut '"' (cs ++ '"' :: rest) = ⟨.string, '"' :: (cs ++ ['"']), rest⟩ := by
  have hne : ∀ c ∈ cs, (c != '"') = true := by
    intro c hc
    rw [bne_iff_ne]
    rintro rfl
    exact hcs hc
  have hdrop : (cs ++ '"' :: rest).dropWhile (· != '"') = '"' :: rest := by
    rw [List.dropWhile_append_of_pos hne]
    rfl
  have htake : (cs ++ '"' :: rest).takeWhile (· != '"') = cs := by
    rw [List.takeWhile_append_of_pos hne]
    simp
  simp [cut, isBlank, hdrop, htake]

end Piece

/-! ## Lexing a part of a text -/

theorem lexFrom_nil (source : List Char) (offset : Nat) (done : List Token) :
    lexFrom source offset done [] = ⟨done.reverse, none⟩ :=
  lexFrom.eq_def source offset done []

/-- One piece is lexed. -/
theorem lexFrom_cons (source : List Char) (offset : Nat) (done : List Token) (c : Char)
    (rest : List Char) :
    lexFrom source offset done (c :: rest) =
      match (Piece.cut c rest).kind? source offset with
      | .error e => ⟨done.reverse, some e⟩
      | .ok none =>
        lexFrom source (offset + (Piece.cut c rest).text.length) done (Piece.cut c rest).rest
      | .ok (some kind) =>
        lexFrom source (offset + (Piece.cut c rest).text.length)
          (⟨kind, .ofList (Piece.cut c rest).text, offset⟩ :: done) (Piece.cut c rest).rest :=
  lexFrom.eq_def source offset done (c :: rest)

/-- The characters `cs` at `offset`, in front of `rest`, are the tokens `ts`. -/
def Lexes (offset : Nat) (cs rest : List Char) (ts : List Token) : Prop :=
  ∀ source done, lexFrom source offset done (cs ++ rest) =
    lexFrom source (offset + cs.length) (ts.reverse ++ done) rest

namespace Lexes

theorem nil (offset : Nat) (rest : List Char) : Lexes offset [] rest [] :=
  fun _ _ => rfl

theorem append {offset : Nat} {cs cs' rest : List Char} {ts ts' : List Token}
    (h : Lexes offset cs (cs' ++ rest) ts) (h' : Lexes (offset + cs.length) cs' rest ts') :
    Lexes offset (cs ++ cs') rest (ts ++ ts') := by
  intro source done
  rw [List.append_assoc, h, h', List.length_append, List.reverse_append, List.append_assoc,
    Nat.add_assoc]

/-- A piece that is a token. -/
theorem token {offset : Nat} {c : Char} {cs rest : List Char} {piece : Piece}
    {kind : Token.Kind} (hcut : Piece.cut c (cs ++ rest) = piece) (htext : piece.text = c :: cs)
    (hrest : piece.rest = rest)
    (hkind : ∀ source, piece.kind? source offset = .ok (some kind)) :
    Lexes offset (c :: cs) rest [⟨kind, .ofList (c :: cs), offset⟩] := by
  intro source done
  simp only [List.cons_append, lexFrom_cons, hcut, hkind, htext, hrest]
  rfl

theorem blank (offset : Nat) {c : Char} (hc : isBlank c = true) (rest : List Char) :
    Lexes offset [c] rest [] := by
  intro source done
  have hcut : Piece.cut c rest = ⟨.blank, [c], rest⟩ := by simp [Piece.cut, hc]
  rw [List.singleton_append, lexFrom_cons, hcut]
  rfl

theorem lparen (offset : Nat) (rest : List Char) :
    Lexes offset ['('] rest [⟨.lparen, "(", offset⟩] :=
  token rfl rfl rfl fun _ => rfl

theorem rparen (offset : Nat) (rest : List Char) :
    Lexes offset [')'] rest [⟨.rparen, ")", offset⟩] :=
  token rfl rfl rfl fun _ => rfl

theorem quote (offset : Nat) (rest : List Char) :
    Lexes offset ['\''] rest [⟨.quote, "'", offset⟩] :=
  token rfl rfl rfl fun _ => rfl

/-- An atom up to where it ends. -/
theorem atom {offset : Nat} {cs rest : List Char} {kind : Token.Kind} (hne : cs ≠ [])
    (hcs : ∀ c ∈ cs, isAtomChar c = true) (hrest : EndsAtom rest)
    (hkind : ∀ source, atomKind source cs offset = .ok kind) :
    Lexes offset cs rest [⟨kind, .ofList cs, offset⟩] := by
  cases cs with
  | nil => exact absurd rfl hne
  | cons c cs =>
      obtain ⟨hc, htail⟩ := List.forall_mem_cons.mp hcs
      refine token (Piece.cut_atom hc htail hrest) rfl rfl fun source => ?_
      simp [Piece.kind?, hkind, Except.map]

theorem dot (offset : Nat) {rest : List Char} (hrest : EndsAtom rest) :
    Lexes offset ['.'] rest [⟨.dot, ".", offset⟩] :=
  atom (List.cons_ne_nil _ _) (List.forall_mem_singleton.mpr rfl) hrest fun _ => rfl

theorem symbol (offset : Nat) {name rest : List Char} (hname : isSymbolName name = true)
    (hrest : EndsAtom rest) :
    Lexes offset name rest [⟨.symbol, .ofList name, offset⟩] :=
  atom (ne_nil_of_isSymbolName hname) (isAtomChar_of_isSymbolName hname) hrest fun source =>
    atomKind_of_isSymbolName hname source offset

theorem numeral (offset : Nat) {n : Int} (hn : inWordRange n = true) {rest : List Char}
    (hrest : EndsAtom rest) :
    Lexes offset (Numeral.text n).toList rest
      [⟨.number, .ofList (Numeral.text n).toList, offset⟩] := by
  have hplain := Numeral.isPlain_text n
  have hne := Numeral.toList_text_ne_nil n
  have hdot : (Numeral.text n).toList ≠ ['.'] := by
    intro hdot
    rw [hdot] at hplain
    cases hplain
  refine atom hne (fun _ => isAtomChar_of_mem_text) hrest fun source => ?_
  have hlength : ¬ Numeral.maxDigits < (Numeral.unsigned (Numeral.text n).toList).length :=
    Nat.not_lt.mpr (length_text_le_maxDigits hn)
  simp only [atomKind, hdot, hplain, hlength, hn, Numeral.plainValue_text, if_true, if_false]

theorem string (offset : Nat) {cs : List Char} (hcs : '"' ∉ cs) (rest : List Char) :
    Lexes offset ('"' :: (cs ++ ['"'])) rest
      [⟨.string, .ofList ('"' :: (cs ++ ['"'])), offset⟩] := by
  have hcut := Piece.cut_string hcs rest
  rw [← List.singleton_append, ← List.append_assoc] at hcut
  exact token hcut rfl rfl fun _ => rfl

end Lexes

/-! ## The texts of tokens -/

/-- What holds of every piece that is a token holds of all tokens. -/
theorem lexFrom_forall {P : Token → Prop} {source : List Char}
    (hpiece : ∀ {offset : Nat} {c : Char} {rest : List Char} {kind : Token.Kind},
      (Piece.cut c rest).kind? source offset = .ok (some kind) →
        P ⟨kind, .ofList (Piece.cut c rest).text, offset⟩)
    {offset : Nat} {done : List Token} {cs : List Char} (hdone : ∀ token ∈ done, P token) :
    ∀ token ∈ (lexFrom source offset done cs).tokens, P token := by
  fun_induction lexFrom source offset done cs with
  | case1 => simpa using hdone
  | case2 => simpa using hdone
  | case3 _ _ _ _ _ _ _ ih => exact ih hdone
  | case4 offset done c rest piece next kind hkind ih =>
      exact ih (List.forall_mem_cons.mpr ⟨hpiece hkind, hdone⟩)

theorem lex_forall {P : Token → Prop} {source : List Char}
    (hpiece : ∀ {offset : Nat} {c : Char} {rest : List Char} {kind : Token.Kind},
      (Piece.cut c rest).kind? source offset = .ok (some kind) →
        P ⟨kind, .ofList (Piece.cut c rest).text, offset⟩) :
    ∀ token ∈ (lex source).tokens, P token :=
  lexFrom_forall hpiece (List.forall_mem_nil _)

/-- What the text of a token may be where its kind leaves this open. -/
def Token.WellSpelled (token : Token) : Prop :=
  match token.kind with
  | .number => inWordRange token.integer = true
  | .symbol => isSymbolName token.text.toList = true
  | .string => '"' ∉ token.content.toList
  | .quote | .lparen | .rparen | .dot => True

theorem atomKind_wellSpelled {source text : List Char} {offset offset' : Nat}
    {kind : Token.Kind} (hne : text ≠ []) (hall : ∀ c ∈ text, isAtomChar c = true)
    (h : atomKind source text offset = .ok kind) :
    Token.WellSpelled ⟨kind, .ofList text, offset'⟩ := by
  unfold atomKind at h
  split at h
  · cases h
    trivial
  · rename_i hdot
    split at h
    · split at h
      · cases h
      · split at h
        · cases h
          simpa [Token.WellSpelled, Token.integer]
        · cases h
    · split at h
      · cases h
      · cases h
        simp_all [Token.WellSpelled, isSymbolName]

theorem Piece.kind?_wellSpelled {source : List Char} {offset offset' : Nat} {c : Char}
    {rest : List Char} {kind : Token.Kind}
    (h : (cut c rest).kind? source offset = .ok (some kind)) :
    Token.WellSpelled ⟨kind, .ofList (cut c rest).text, offset'⟩ := by
  revert h
  fun_cases cut c rest with
  | case1 => rintro ⟨⟩
  | case2 => rintro ⟨⟩
  | case3 => rintro ⟨⟩; trivial
  | case4 => rintro ⟨⟩; trivial
  | case5 => rintro ⟨⟩; trivial
  | case6 => rintro ⟨⟩
  | case7 =>
      rintro ⟨⟩
      have hcontent : '"' ∉ rest.takeWhile (· != '"') := not_mem_takeWhile_ne '"' rest
      simpa [Token.WellSpelled, Token.content] using hcontent
  | case8 hblank hsemi hq hl hr hs hc =>
      intro h
      cases hkind : atomKind source (c :: rest.takeWhile isAtomChar) offset with
      | error e => simp [kind?, hkind, Except.map] at h
      | ok kind' =>
          obtain rfl : kind' = kind := by simpa [kind?, hkind, Except.map] using h
          exact atomKind_wellSpelled (by simp) (forall_isAtomChar hc rest) hkind
  | case9 => rintro ⟨⟩

/-- The tokens of a source are well spelled. -/
theorem lex_wellSpelled (source : List Char) : ∀ token ∈ (lex source).tokens, token.WellSpelled :=
  lex_forall Piece.kind?_wellSpelled

end TableLisp

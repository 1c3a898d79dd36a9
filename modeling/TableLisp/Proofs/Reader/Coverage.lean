import Mathlib.Data.List.Forall2
import TableLisp.Proofs.Reader.Failing

/-!
# Tokens cover their source

A source is lexed in rounds. Each round cuts one piece off what is left of the source, and finds
a token there or passes over a blank or a comment. `Scan` follows these rounds. Every round takes at
least one character, so there are no more rounds than characters (`Scan.rounds_le`); the tokens of
a source are what its scan has found where it can go no further (`exists_scan`).

What holds of a scan is shown round by round. `Covered` is the invariant: up to where the scan has
come, the source is the tokens that it has found, and between them there are only blanks and
comments (`Passed`).
-/

namespace TableLisp

open Text

/-! ## Rounds -/

/-- The scan of a source after some rounds: the offset that it has come to, and the tokens that it
has found. -/
inductive Scan (source : List Char) : Nat → Nat → List Token → Prop
  | start : Scan source 0 0 []
  | round {rounds offset : Nat} {tokens : List Token} {c : Char} {rest : List Char}
      {kind : Option Token.Kind} (h : Scan source rounds offset tokens)
      (hrest : source.drop offset = c :: rest)
      (hkind : (Piece.cut c rest).kind? source offset = .ok kind) :
      Scan source (rounds + 1) (offset + (Piece.cut c rest).text.length)
        (tokens ++ ((Piece.cut c rest).token? kind offset).toList)

namespace Piece

variable {source : List Char} {offset : Nat} {c : Char} {rest : List Char}

/-- The front of what is left is the piece that is cut off it. -/
theorem drop_eq_cut (h : source.drop offset = c :: rest) :
    source.drop offset = (cut c rest).text ++ (cut c rest).rest :=
  h.trans (cut_append c rest).symm

theorem drop_cut (h : source.drop offset = c :: rest) :
    source.drop (offset + (cut c rest).text.length) = (cut c rest).rest := by
  rw [← List.drop_drop, drop_eq_cut h, List.drop_left]

theorem extract_cut (h : source.drop offset = c :: rest) :
    source.extract offset (offset + (cut c rest).text.length) =
      (cut c rest).text := by
  rw [List.extract_eq_take_drop, drop_eq_cut h, Nat.add_sub_cancel_left, List.take_left]

theorem length_cut_text_pos (c : Char) (rest : List Char) : 0 < (cut c rest).text.length :=
  List.length_pos_iff.mpr (cut_text_ne_nil c rest)

theorem add_length_cut_le (h : source.drop offset = c :: rest) :
    offset + (cut c rest).text.length ≤ source.length := by
  have hlength := congrArg List.length (drop_eq_cut h)
  have hpos := length_cut_text_pos c rest
  rw [List.length_drop, List.length_append] at hlength
  omega

end Piece

namespace Scan

variable {source : List Char} {rounds offset : Nat} {tokens : List Token}

theorem offset_le (h : Scan source rounds offset tokens) : offset ≤ source.length := by
  cases h with
  | start => exact Nat.zero_le _
  | round _ hrest _ => exact Piece.add_length_cut_le hrest

theorem rounds_le_offset (h : Scan source rounds offset tokens) : rounds ≤ offset := by
  induction h with
  | start => exact Nat.le_refl 0
  | @round _ _ _ c rest _ _ _ _ ih =>
      have hpos := Piece.length_cut_text_pos c rest
      omega

/-- There are no more rounds than characters. -/
theorem rounds_le (h : Scan source rounds offset tokens) : rounds ≤ source.length :=
  Nat.le_trans h.rounds_le_offset h.offset_le

end Scan

/-- Where the scan of a source ends: behind its last character, or at a piece that is no token. -/
def ScanEnds (source : List Char) (stop : Nat) : Option ReadError → Prop
  | none => stop = source.length
  | some e => ∃ c rest, source.drop stop = c :: rest ∧
      (Piece.cut c rest).kind? source stop = .error e

theorem ScanEnds.lt_length {source : List Char} {stop : Nat} {e : ReadError}
    (h : ScanEnds source stop (some e)) : stop < source.length := by
  obtain ⟨c, rest, hrest, -⟩ := h
  refine Nat.lt_of_not_le fun hle => ?_
  rw [List.drop_eq_nil_of_le hle] at hrest
  cases hrest

theorem exists_scan_of_lexFrom {source : List Char} {offset : Nat} {done : List Token}
    {cs : List Char} (hcs : source.drop offset = cs) (hle : offset ≤ source.length) {rounds : Nat}
    (h : Scan source rounds offset done.reverse) :
    ∃ rounds' stop, Scan source rounds' stop (lexFrom source offset done cs).tokens ∧
      ScanEnds source stop (lexFrom source offset done cs).failure := by
  fun_induction lexFrom source offset done cs generalizing rounds with
  | case1 offset done =>
      have hend : offset = source.length := Nat.le_antisymm hle (List.drop_eq_nil_iff.mp hcs)
      exact ⟨rounds, offset, h, hend⟩
  | case2 offset done c rest piece e hkind => exact ⟨rounds, offset, h, c, rest, hcs, hkind⟩
  | case3 offset done c rest piece next hkind ih =>
      have hround := h.round hcs hkind
      rw [Piece.token?, Option.map_none, Option.toList_none, List.append_nil] at hround
      exact ih (Piece.drop_cut hcs) (Piece.add_length_cut_le hcs) hround
  | case4 offset done c rest piece next kind hkind ih =>
      have hround := h.round hcs hkind
      rw [Piece.token?, Option.map_some, Option.toList_some, ← List.reverse_cons] at hround
      exact ih (Piece.drop_cut hcs) (Piece.add_length_cut_le hcs) hround

/-- The scan of every source ends, with the tokens and the failure that it is lexed into. -/
theorem exists_scan (source : List Char) :
    ∃ rounds stop, Scan source rounds stop (lex source).tokens ∧
      ScanEnds source stop (lex source).failure :=
  exists_scan_of_lexFrom rfl (Nat.zero_le _) .start

/-! ## Between tokens -/

/-- Between two offsets of a source there are only blanks and comments. A comment goes on to the
next line feed or to the end of the source. -/
inductive Passed (source : List Char) : Nat → Nat → Prop
  | refl (offset : Nat) : Passed source offset offset
  | blank {offset stop : Nat} {c : Char} {rest : List Char}
      (hrest : source.drop offset = c :: rest) (hc : isBlank c = true)
      (h : Passed source (offset + 1) stop) : Passed source offset stop
  | comment {offset stop : Nat} {text rest : List Char}
      (hrest : source.drop offset = ';' :: (text ++ rest)) (htext : '\n' ∉ text)
      (hend : rest = [] ∨ ∃ later, rest = '\n' :: later)
      (h : Passed source (offset + 1 + text.length) stop) : Passed source offset stop

theorem Passed.trans {source : List Char} {i j k : Nat} (h : Passed source i j)
    (h' : Passed source j k) : Passed source i k := by
  induction h with
  | refl => exact h'
  | blank hrest hc _ ih => exact .blank hrest hc (ih h')
  | comment hrest htext hend _ ih => exact .comment hrest htext hend (ih h')

/-- A piece that is no token and no failure is a blank or a comment. -/
theorem Piece.passed {source : List Char} {offset : Nat} {c : Char} {rest : List Char}
    (hrest : source.drop offset = c :: rest)
    (hkind : (Piece.cut c rest).kind? source offset = .ok none) :
    Passed source offset (offset + (Piece.cut c rest).text.length) := by
  revert hkind
  fun_cases Piece.cut c rest with
  | case1 hblank => exact fun _ => .blank hrest hblank (.refl _)
  | case2 hblank hsemi =>
      intro _
      have htext : '\n' ∉ rest.takeWhile (· != '\n') := not_mem_takeWhile_ne '\n' rest
      have hend : rest.dropWhile (· != '\n') = [] ∨
          ∃ later, rest.dropWhile (· != '\n') = '\n' :: later := by
        cases hdrop : rest.dropWhile (· != '\n') with
        | nil => exact .inl rfl
        | cons d later =>
            obtain rfl := eq_of_dropWhile_ne hdrop
            exact .inr ⟨later, rfl⟩
      rw [hsemi, ← List.takeWhile_append_dropWhile (p := (· != '\n')) (l := rest)] at hrest
      have hplace : offset + (c :: rest.takeWhile (· != '\n')).length =
          offset + 1 + (rest.takeWhile (· != '\n')).length := by
        rw [List.length_cons]
        omega
      rw [hplace]
      exact .comment hrest htext hend (.refl _)
  | case3 | case4 | case5 | case6 | case7 | case9 => rintro ⟨⟩
  | case8 =>
      intro hkind
      cases hatom : atomKind source (c :: rest.takeWhile isAtomChar) offset <;>
        simp [Piece.kind?, hatom, Except.map] at hkind

/-! ## Tokens and what is between them -/

/-- The offset behind a token. -/
def Token.stop (token : Token) : Nat :=
  token.offset + token.text.length

theorem Token.offset_lt_stop (token : Token) (h : token.text ≠ "") :
    token.offset < token.stop := by
  have hpos := List.length_pos_iff.mpr (mt String.toList_eq_nil_iff.mp h)
  rw [String.length_toList] at hpos
  exact Nat.lt_add_of_pos_right hpos

/-- The kinds of tokens that are spelled by atoms. -/
def Token.Kind.isAtom : Token.Kind → Bool
  | .number | .symbol | .dot => true
  | .quote | .lparen | .rparen | .string => false

/-- Up to an offset, a source is some tokens with blanks and comments before, between and behind
them. -/
structure Covered (source : List Char) (tokens : List Token) (stop : Nat) : Prop where
  /-- Each token has a text, which stands in the source at its offset. -/
  spelled : ∀ token ∈ tokens, token.text ≠ "" ∧
    source.extract token.offset token.stop = token.text.toList
  /-- The tokens stand one behind the other. -/
  apart : tokens.Pairwise fun token later =>
    token.offset < later.offset ∧ token.stop ≤ later.offset
  /-- No token goes beyond the end. -/
  within : ∀ token ∈ tokens, token.stop ≤ stop
  /-- What spells an atom goes on as far as it can. -/
  maximal : ∀ token ∈ tokens, token.kind.isAtom = true →
    (∀ c ∈ token.text.toList, isAtomChar c = true) ∧
      ∀ c, source[token.stop]? = some c → isBlank c = true ∨ c ∈ ['(', ')', '\'', '"', ';']
  /-- Before the first token, between two and behind the last one, all is passed over. -/
  gaps : List.Forall₂ (Passed source) (0 :: tokens.map Token.stop)
    (tokens.map Token.offset ++ [stop])

namespace Covered

theorem start (source : List Char) : Covered source [] 0 where
  spelled := List.forall_mem_nil _
  apart := .nil
  within := List.forall_mem_nil _
  maximal := List.forall_mem_nil _
  gaps := .cons (.refl 0) .nil

/-- What is passed over behind the tokens makes the last gap longer. -/
theorem pass {source : List Char} {tokens : List Token} {offset stop : Nat}
    (h : Covered source tokens offset) (hpassed : Passed source offset stop)
    (hle : offset ≤ stop) : Covered source tokens stop := by
  have hwithin : ∀ token ∈ tokens, token.stop ≤ stop := fun token htoken =>
    Nat.le_trans (h.within token htoken) hle
  refine { h with within := hwithin, gaps := ?_ }
  have hgaps := List.forall₂_reverse_iff.mpr h.gaps
  rw [List.reverse_append] at hgaps
  rw [← List.forall₂_reverse_iff, List.reverse_append]
  generalize (0 :: tokens.map Token.stop).reverse = starts at *
  cases hgaps with
  | cons hlast hearlier => exact .cons (hlast.trans hpassed) hearlier

/-- A token is found where the tokens before it have led. -/
theorem find {source : List Char} {tokens : List Token} {token : Token}
    (h : Covered source tokens token.offset) (htext : token.text ≠ "")
    (hspelled : source.extract token.offset token.stop = token.text.toList)
    (hmaximal : token.kind.isAtom = true → (∀ c ∈ token.text.toList, isAtomChar c = true) ∧
      ∀ c, source[token.stop]? = some c → isBlank c = true ∨ c ∈ ['(', ')', '\'', '"', ';']) :
    Covered source (tokens ++ [token]) token.stop where
  spelled := List.forall_mem_append.mpr
    ⟨h.spelled, List.forall_mem_singleton.mpr ⟨htext, hspelled⟩⟩
  apart := by
    refine List.pairwise_append.mpr ⟨h.apart, List.pairwise_singleton .., fun before hbefore => ?_⟩
    have hlt := before.offset_lt_stop (h.spelled before hbefore).1
    have hle := h.within before hbefore
    exact List.forall_mem_singleton.mpr ⟨Nat.lt_of_lt_of_le hlt hle, hle⟩
  within := by
    refine List.forall_mem_append.mpr ⟨fun before hbefore => ?_, ?_⟩
    · exact Nat.le_trans (h.within before hbefore) (Nat.le_add_right ..)
    · exact List.forall_mem_singleton.mpr (Nat.le_refl _)
  maximal := List.forall_mem_append.mpr ⟨h.maximal, List.forall_mem_singleton.mpr hmaximal⟩
  gaps := by
    rw [List.map_append, List.map_append]
    exact List.rel_append h.gaps (.cons (.refl _) .nil)

end Covered

/-- An atom is cut off as long as it goes on. -/
theorem Piece.maximal {source : List Char} {offset : Nat} {c : Char} {rest : List Char}
    {kind : Token.Kind} (hkind : (Piece.cut c rest).kind? source offset = .ok (some kind))
    (hatom : kind.isAtom = true) :
    (∀ d ∈ (Piece.cut c rest).text, isAtomChar d = true) ∧ EndsAtom (Piece.cut c rest).rest := by
  revert hkind
  fun_cases Piece.cut c rest with
  | case8 hblank hsemi hq hl hr hs hc =>
      exact fun _ => ⟨forall_isAtomChar hc rest, endsAtom_dropWhile rest⟩
  | case1 | case2 | case6 | case9 => rintro ⟨⟩
  | case3 | case4 | case5 | case7 =>
      rintro ⟨⟩
      cases hatom

/-- Every round keeps the source covered. -/
theorem Covered.round {source : List Char} {offset : Nat} {tokens : List Token} {c : Char}
    {rest : List Char} {kind : Option Token.Kind} (h : Covered source tokens offset)
    (hrest : source.drop offset = c :: rest)
    (hkind : (Piece.cut c rest).kind? source offset = .ok kind) :
    Covered source (tokens ++ ((Piece.cut c rest).token? kind offset).toList)
      (offset + (Piece.cut c rest).text.length) := by
  cases kind with
  | none =>
      rw [Piece.token?, Option.map_none, Option.toList_none, List.append_nil]
      exact h.pass (Piece.passed hrest hkind) (Nat.le_add_right ..)
  | some kind =>
      let token : Token := ⟨kind, .ofList (Piece.cut c rest).text, offset⟩
      have hstop : token.stop = offset + (Piece.cut c rest).text.length :=
        congrArg (offset + ·) String.length_ofList
      have htext : token.text.toList = (Piece.cut c rest).text := String.toList_ofList
      have hne : token.text ≠ "" := by
        intro hempty
        rw [hempty] at htext
        exact Piece.cut_text_ne_nil c rest htext.symm
      have hspelled : source.extract token.offset token.stop = token.text.toList := by
        rw [hstop, htext]
        exact Piece.extract_cut hrest
      have hfound : Covered source (tokens ++ [token]) token.stop := by
        refine h.find hne hspelled fun hatom => ?_
        obtain ⟨hchars, hends⟩ := Piece.maximal hkind hatom
        rw [htext]
        refine ⟨hchars, fun d hd => breaks_of_not_isAtomChar (hends d ?_)⟩
        rw [← Piece.drop_cut hrest, List.head?_drop, ← hstop, hd]
      rwa [hstop] at hfound

theorem Scan.covered {source : List Char} {rounds offset : Nat} {tokens : List Token}
    (h : Scan source rounds offset tokens) : Covered source tokens offset := by
  induction h with
  | start => exact .start source
  | round _ hrest hkind ih => exact ih.round hrest hkind

/-- The offset of a failure is where the scan has come to. A numeral that is too long has no offset,
but that is where it stands. -/
theorem ScanEnds.at_failure {source : List Char} {stop : Nat} {e : ReadError}
    (h : ScanEnds source stop (some e)) :
    (∃ fault, e = .parse (.locate source fault stop)) ∨
      e = .numeralTooLong ∧ ∃ atom after, source.drop stop = atom ++ after ∧ EndsAtom after ∧
        Numeral.isPlain atom = true ∧ Numeral.maxDigits < (Numeral.unsigned atom).length := by
  obtain ⟨c, rest, hrest, hkind⟩ := h
  cases e with
  | parse e =>
      have hhere := Piece.kind?_move hkind (fun _ => stop) source
      exact .inl ⟨e.fault, Except.error.inj (hkind.symm.trans hhere)⟩
  | numeralTooLong =>
      rcases Piece.atom_of_error hkind with ⟨⟨⟩⟩ | ⟨atom, after, hsplit, -, -, hends, hfails⟩
      · obtain ⟨hplain, hlong⟩ := atomKind_eq_numeralTooLong_iff.mp hfails
        exact .inr ⟨rfl, atom, after, hrest.trans hsplit, hends, hplain, hlong⟩

/-- **Coverage.** No scan of a source has more rounds than the source has characters, so every scan
ends, and it ends with the tokens that the source is lexed into. Each of them is spelled in the
source as its text, one behind the other; an atom goes on as far as it can; and before, between and
behind them there is nothing but blanks and comments, up to the end of the source or to the place
where lexing fails. -/
theorem tokens_cover_source (source : List Char) :
    (∀ rounds offset tokens, Scan source rounds offset tokens → rounds ≤ source.length) ∧
    ∃ rounds stop, Scan source rounds stop (lex source).tokens ∧
      Covered source (lex source).tokens stop ∧
      match (lex source).failure with
      | none => stop = source.length
      | some (.parse e) => stop = e.offset ∧ stop < source.length
      | some .numeralTooLong =>
        ∃ atom after, source.drop stop = atom ++ after ∧ EndsAtom after ∧
          Numeral.isPlain atom = true ∧ Numeral.maxDigits < (Numeral.unsigned atom).length := by
  refine ⟨fun _ _ _ h => h.rounds_le, ?_⟩
  obtain ⟨rounds, stop, hscan, hends⟩ := exists_scan source
  refine ⟨rounds, stop, hscan, hscan.covered, ?_⟩
  cases hfailure : (lex source).failure with
  | none =>
      rw [hfailure] at hends
      exact hends
  | some e =>
      rw [hfailure] at hends
      have hlt : stop < source.length := hends.lt_length
      rcases hends.at_failure with ⟨fault, rfl⟩ | ⟨rfl, hnumeral⟩
      · exact ⟨rfl, hlt⟩
      · exact hnumeral

end TableLisp

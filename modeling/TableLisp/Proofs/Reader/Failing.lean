import TableLisp.Proofs.Reader.Moving

/-!
# Where reading fails

Lexing fails at the first piece that is no token, behind text that is lexed (`lex_eq_failure_iff`).
Apart from a string left open this is an atom that looks like a number (`AtomAt`): one that is none,
one that is out of range, or one with too many digits to have a value at all. Reading comes to that
failure if nothing is amiss with the tokens before it (`Datum.ReachesEnd`), and only the last of
these failures is no parse error (`parse_eq_numeralTooLong_iff`).

The reader itself refuses a token for one of a few reasons, or misses one at the end
(`Datum.Refusal.Occurs`). An error of a source is such a refusal or the failure that reading comes
to (`parse_eq_error_iff`).

The wording of a fault may quote an atom, but never more than a line
(`newline_not_mem_message`).
-/

namespace TableLisp

open Text

/-! ## The piece that is no token -/

/-- A piece is lexed as the token that it is, if it is one. -/
theorem Lexes.piece {source : List Char} {offset : Nat} {c : Char} {rest : List Char}
    {kind : Option Token.Kind} (h : (Piece.cut c rest).kind? source offset = .ok kind) :
    Lexes offset (Piece.cut c rest).text (Piece.cut c rest).rest
      ((Piece.cut c rest).token? kind offset).toList := by
  intro source' done
  rw [Piece.cut_append, lexFrom_piece h]
  cases kind <;> rfl

/-- Lexing fails behind text that is lexed. -/
theorem lexFrom_failure {source : List Char} {offset : Nat} {done : List Token} {cs : List Char}
    {e : ReadError} (h : (lexFrom source offset done cs).failure = some e) :
    ∃ before c rest ts, cs = before ++ c :: rest ∧ Lexes offset before (c :: rest) ts ∧
      (Piece.cut c rest).kind? source (offset + before.length) = .error e ∧
      (lexFrom source offset done cs).tokens = done.reverse ++ ts := by
  fun_induction lexFrom source offset done cs with
  | case1 => cases h
  | case2 offset done c rest piece e' hkind =>
      obtain rfl : e' = e := Option.some.inj h
      exact ⟨[], c, rest, [], rfl, .nil offset _, hkind, (List.append_nil _).symm⟩
  | case3 offset done c rest piece next hkind ih =>
      obtain ⟨before, d, later, ts, hrest, hlexes, hfails, htokens⟩ := ih h
      have hpiece := Lexes.piece hkind
      rw [hrest] at hpiece
      refine ⟨piece.text ++ before, d, later, _, ?_, hpiece.append hlexes, ?_, htokens⟩
      · rw [List.append_assoc, ← hrest, Piece.cut_append]
      · rwa [List.length_append, ← Nat.add_assoc]
  | case4 offset done c rest piece next kind hkind ih =>
      obtain ⟨before, d, later, ts, hrest, hlexes, hfails, htokens⟩ := ih h
      have hpiece := Lexes.piece hkind
      rw [hrest] at hpiece
      refine ⟨piece.text ++ before, d, later, _, ?_, hpiece.append hlexes, ?_, ?_⟩
      · rw [List.append_assoc, ← hrest, Piece.cut_append]
      · rwa [List.length_append, ← Nat.add_assoc]
      · rw [htokens, List.reverse_cons, List.append_assoc]
        rfl

theorem lex_eq_failure_iff {source : List Char} {tokens : List Token} {e : ReadError} :
    lex source = ⟨tokens, some e⟩ ↔
      ∃ before c rest, source = before ++ c :: rest ∧ Lexes 0 before (c :: rest) tokens ∧
        (Piece.cut c rest).kind? source before.length = .error e := by
  constructor
  · intro h
    obtain ⟨before, c, rest, ts, hsource, hlexes, hfails, htokens⟩ :=
      lexFrom_failure (congrArg Lexed.failure h)
    have hsame : tokens = ts := (congrArg Lexed.tokens h).symm.trans htokens
    rw [Nat.zero_add] at hfails
    exact ⟨before, c, rest, hsource, hsame ▸ hlexes, hfails⟩
  · rintro ⟨before, c, rest, hsource, hlexes, hfails⟩
    have hwhole := hlexes source []
    rw [← hsource, lexFrom_cons, Nat.zero_add, hfails] at hwhole
    simpa [lex] using hwhole

/-! ## Atoms -/

/-- An atom of a source: a longest run of atom characters, behind text that is some tokens. -/
structure AtomAt (source before atom after : List Char) (tokens : List Token) : Prop where
  source_eq : source = before ++ (atom ++ after)
  lexes : Lexes 0 before (atom ++ after) tokens
  ne_nil : atom ≠ []
  isAtomChar : ∀ c ∈ atom, isAtomChar c = true
  ends : EndsAtom after

/-- Lexing fails at an atom that is no token. -/
theorem AtomAt.lex_eq_failure {source before atom after : List Char} {tokens : List Token}
    {e : ReadError} (h : AtomAt source before atom after tokens)
    (hkind : atomKind source atom before.length = .error e) : lex source = ⟨tokens, some e⟩ := by
  obtain ⟨hsource, hlexes, hne, hatom, hends⟩ := h
  cases atom with
  | nil => exact absurd rfl hne
  | cons c atom =>
      obtain ⟨hc, hcs⟩ := List.forall_mem_cons.mp hatom
      refine lex_eq_failure_iff.mpr ⟨before, c, atom ++ after, hsource, hlexes, ?_⟩
      rw [Piece.cut_atom hc hcs hends, Piece.kind?, hkind]
      rfl

/-- What is no token is a string left open, or an atom. -/
theorem Piece.atom_of_error {source : List Char} {offset : Nat} {c : Char} {rest : List Char}
    {e : ReadError} (h : (cut c rest).kind? source offset = .error e) :
    e = .parse (.locate source .unterminatedString offset) ∨
      ∃ atom after, c :: rest = atom ++ after ∧ atom ≠ [] ∧
        (∀ c ∈ atom, isAtomChar c = true) ∧ EndsAtom after ∧
        atomKind source atom offset = .error e := by
  revert h
  fun_cases cut c rest with
  | case6 =>
      rintro ⟨⟩
      exact .inl rfl
  | case9 hblank hsemi hq hl hr hs hc =>
      exact fun _ => absurd (isAtomChar_of_other hblank hsemi hq hl hr hs) hc
  | case8 hblank hsemi hq hl hr hs hc =>
      intro h
      right
      refine ⟨c :: rest.takeWhile isAtomChar, rest.dropWhile isAtomChar, ?_,
        List.cons_ne_nil _ _, forall_isAtomChar hc rest, endsAtom_dropWhile rest, ?_⟩
      · rw [List.cons_append, List.takeWhile_append_dropWhile]
      · rw [kind?] at h
        cases hkind : atomKind source (c :: rest.takeWhile isAtomChar) offset with
        | error e' =>
            rw [hkind] at h
            cases h
            rfl
        | ok kind =>
            rw [hkind] at h
            cases h
  | _ => rintro ⟨⟩

/-- A failure that is not of a string is at an atom. -/
theorem atomAt_of_failure {source : List Char} {tokens : List Token} {e : ReadError}
    (h : lex source = ⟨tokens, some e⟩) :
    (∃ offset, e = .parse (.locate source .unterminatedString offset)) ∨
      ∃ before atom after, AtomAt source before atom after tokens ∧
        atomKind source atom before.length = .error e := by
  obtain ⟨before, c, rest, hsource, hlexes, hfails⟩ := lex_eq_failure_iff.mp h
  rcases Piece.atom_of_error hfails with hopen | ⟨atom, after, hsplit, hne, hatom, hends, hkind⟩
  · exact .inl ⟨_, hopen⟩
  · rw [hsplit] at hsource hlexes
    exact .inr ⟨before, atom, after, ⟨hsource, hlexes, hne, hatom, hends⟩, hkind⟩

theorem atomKind_eq_numeralTooLong_iff {source atom : List Char} {offset : Nat} :
    atomKind source atom offset = .error .numeralTooLong ↔
      Numeral.isPlain atom = true ∧ Numeral.maxDigits < (Numeral.unsigned atom).length := by
  have hdot : Numeral.isPlain ['.'] = false := rfl
  unfold atomKind
  repeat' split
  all_goals simp_all

theorem atomKind_of_out_of_range {atom : List Char} (hplain : Numeral.isPlain atom = true)
    (hdigits : (Numeral.unsigned atom).length ≤ Numeral.maxDigits)
    (hrange : inWordRange (Numeral.plainValue atom) = false) (source : List Char) (offset : Nat) :
    atomKind source atom offset =
      .error (.parse (.locate source (.integerRange (.ofList atom)) offset)) := by
  have hdot : atom ≠ ['.'] := by
    rintro rfl
    cases hplain
  simp [atomKind, hdot, hplain, Nat.not_lt.mpr hdigits, hrange]

/-! ## Refusals -/

namespace Datum

/-- The refusals that there are: of a token, which is settled there, and for want of further tokens
at the end. -/
inductive Refusal.Occurs : Refusal → Prop
  | atToken {fault : Fault} (offset : Nat)
      (h : fault ∈ [.tooDeep, .unmatchedClose, .strayDot, .tailNotClosed, .nothingAfterDot]) :
      Occurs ⟨fault, some offset, false⟩
  | missing (stack : List Opening) : Occurs (missing stack)
  | unclosed : Occurs ⟨.tailNotClosed, none, true⟩

/-- A refusal, if there is one, is one of those. -/
def Progress.Occurs : Progress → Prop
  | .refused refusal _ => refusal.Occurs
  | _ => True

theorem deliver_occurs (form : Form) (stack : List Opening) (depth : Nat) :
    (deliver form stack depth).Occurs := by
  fun_induction deliver form stack depth with
  | case2 form offset stack depth ih => exact ih
  | _ => trivial

theorem descend_occurs (limit : Int) (opening : Opening) (offset : Nat)
    (stack : List Opening) (depth : Nat) :
    (descend limit opening offset stack depth).Occurs := by
  unfold descend
  split
  · exact .atToken offset (by decide)
  · trivial

theorem shift_occurs (limit : Int) (stack : List Opening) (depth : Nat) (token : Token)
    (last : Bool) : (shift limit stack depth token last).Occurs := by
  fun_cases shift limit stack depth token last with
  | case1 | case2 | case3 | case7 => exact deliver_occurs ..
  | case5 | case6 => exact descend_occurs ..
  | case4 | case9 => trivial
  | case8 | case10 => exact .atToken token.offset (by decide)

theorem close_occurs (form : Form) (stack : List Opening) (depth : Nat) (token : Token) :
    (close form stack depth token).Occurs := by
  unfold close
  split
  · exact deliver_occurs ..
  · exact .atToken token.offset (by decide)

theorem readOn_occurs {limit : Int} {progress : Progress} {tokens : List Token}
    {refusal : Refusal} (h : progress.Occurs)
    (hrefused : (readOn limit progress tokens).outcome = .error refusal) : refusal.Occurs := by
  fun_induction readOn limit progress tokens with
  | case1 => cases hrefused
  | case2 refusal' depth rest =>
      obtain rfl : refusal' = refusal := Except.error.inj hrefused
      exact h
  | case3 stack depth =>
      obtain rfl : missing stack = refusal := Except.error.inj hrefused
      exact .missing stack
  | case4 form stack depth =>
      cases hrefused
      exact .unclosed
  | case5 stack depth token rest dot hends =>
      cases hrefused
      exact .atToken dot (by decide)
  | case6 stack depth token rest hends ih => exact ih (shift_occurs ..) hrefused
  | case7 form stack depth token rest ih => exact ih (close_occurs ..) hrefused

/-- What is refused is refused behind data that are read. -/
theorem readAll_refused {limit : Int} {tokens : List Token} {refusal : Refusal}
    (h : readAll limit tokens = .error refusal) :
    ∃ ts forms n token rest, tokens = ts ++ token :: rest ∧ IsData ts forms n ∧
      n ≤ limit.toNat ∧ (read limit 0 (token :: rest)).outcome = .error refusal := by
  fun_induction readAll limit tokens with
  | case1 => cases h
  | case2 token rest refusal' hrefused =>
      obtain rfl : refusal' = refusal := Except.error.inj h
      exact ⟨[], [], 0, token, rest, rfl, .nil, Nat.zero_le _, hrefused⟩
  | case3 token rest form hform ih =>
      have hread : read limit 0 (token :: rest) = ⟨.ok form,
          (read limit 0 (token :: rest)).depth, (read limit 0 (token :: rest)).rest⟩ := by
        rw [← hform]
      obtain ⟨-, us, m, htokens, hdatum, hm⟩ := read_eq_ok_iff.mp hread
      cases hlater : readAll limit (read limit 0 (token :: rest)).rest with
      | ok forms => simp [hlater, Except.map] at h
      | error refusal' =>
          rw [hlater] at h
          obtain rfl : refusal' = refusal := Except.error.inj h
          obtain ⟨ts, forms, n, token', rest', hrest, hdata, hn, hrefused⟩ := ih hlater
          refine ⟨us ++ ts, form :: forms, max m n, token', rest', ?_, .cons hdatum hdata,
            Nat.max_le.mpr ⟨levelsLeft_zero limit ▸ hm, hn⟩, hrefused⟩
          rw [htokens, hrest, List.append_assoc]

theorem readAll_occurs {limit : Int} {tokens : List Token} {refusal : Refusal}
    (h : readAll limit tokens = .error refusal) : refusal.Occurs := by
  obtain ⟨-, -, -, token, rest, -, -, -, hrefused⟩ := readAll_refused h
  have hstart : Progress.Occurs (.reading [] 0) := trivial
  exact readOn_occurs hstart hrefused

end Datum

/-! ## Coming to a failure -/

/-- The reader comes to the end of some tokens: it reads them all, or it asks for more. -/
def Datum.ReachesEnd (limit : Int) (tokens : List Token) : Prop :=
  ∀ refusal, readAll limit tokens = .error refusal → refusal.atEnd = true

theorem parse_of_failure {limit : Int} {source : List Char} {tokens : List Token} {e : ReadError}
    (h : lex source = ⟨tokens, some e⟩) (hend : Datum.ReachesEnd limit tokens) :
    parse limit source = .error e := by
  rw [parse_eq_settle, h]
  cases hread : Datum.readAll limit tokens with
  | ok forms => rfl
  | error refusal => simp [Datum.settle, Datum.Refusal.shown, hend refusal hread]

/-- A fault before the end of the tokens is the first to show. -/
theorem parse_of_refusal {limit : Int} {source : List Char} {refusal : Datum.Refusal}
    (h : Datum.readAll limit (lex source).tokens = .error refusal)
    (hearly : refusal.atEnd = false) :
    parse limit source = .error (refusal.error source) := by
  simp [parse_eq_settle, h, Datum.settle, Datum.Refusal.shown, hearly]

/-- Where an error of a source comes from. A refusal shows if it is settled at a token or if no
lexing failure waits behind the tokens, and such a failure shows if the reader comes to it. -/
theorem parse_eq_error_iff {limit : Int} {source : List Char} {e : ReadError} :
    parse limit source = .error e ↔
      (∃ refusal, Datum.readAll limit (lex source).tokens = .error refusal ∧
        (refusal.atEnd = false ∨ (lex source).failure = none) ∧ refusal.error source = e) ∨
      (lex source).failure = some e ∧ Datum.ReachesEnd limit (lex source).tokens := by
  rw [parse_eq_settle]
  unfold Datum.ReachesEnd
  cases Datum.readAll limit (lex source).tokens with
  | ok forms => cases hfailure : (lex source).failure <;> simp [Datum.settle]
  | error refusal =>
      cases hend : refusal.atEnd <;> cases hfailure : (lex source).failure <;>
        simp [Datum.settle, Datum.Refusal.shown, hend]

theorem parse_eq_numeralTooLong_iff {limit : Int} {source : List Char} :
    parse limit source = .error .numeralTooLong ↔
      (lex source).failure = some .numeralTooLong ∧
        Datum.ReachesEnd limit (lex source).tokens := by
  rw [parse_eq_error_iff]
  refine or_iff_right ?_
  rintro ⟨refusal, -, -, ⟨⟩⟩

/-! ## Messages -/

/-- The text of the source that the wording of a fault quotes. -/
def Fault.quoted : Fault → String
  | unexpectedCharacter c => Quoted.encode (.singleton c)
  | integerRange numeral => numeral
  | invalidNumber text => text
  | _ => ""

theorem not_mem_append_toList {c : Char} {s t : String} (hs : c ∉ s.toList) (ht : c ∉ t.toList) :
    c ∉ (s ++ t).toList := by
  rw [String.toList_append, List.mem_append, not_or]
  exact ⟨hs, ht⟩

theorem Fault.newline_not_mem_message {fault : Fault} (h : '\n' ∉ fault.quoted.toList) :
    '\n' ∉ fault.message.toList := by
  cases fault with
  | unexpectedCharacter c => exact not_mem_append_toList (by decide) h
  | integerRange text => exact not_mem_append_toList (by decide) h
  | invalidNumber text => exact not_mem_append_toList (by decide) h
  | _ => decide

/-- The reader itself quotes nothing. -/
theorem Datum.Refusal.Occurs.quotes_nothing {refusal : Refusal} (h : refusal.Occurs) :
    refusal.fault.quoted = "" := by
  cases h with
  | atToken offset h =>
      simp only [List.mem_cons, List.not_mem_nil, or_false] at h
      rcases h with rfl | rfl | rfl | rfl | rfl <;> rfl
  | missing stack => rcases stack with _ | ⟨_ | _ | _, stack⟩ <;> rfl
  | unclosed => rfl

/-- Of a source nothing is quoted but atoms, which have no line end in them. -/
theorem newline_not_mem_atom_error {source atom : List Char} {offset : Nat} {e : ParseError}
    (hatom : ∀ c ∈ atom, isAtomChar c = true)
    (h : atomKind source atom offset = .error (.parse e)) : '\n' ∉ e.fault.quoted.toList := by
  have hnewline : '\n' ∉ atom := fun hmem => absurd (hatom _ hmem) (by decide)
  revert h
  fun_cases atomKind source atom offset with
  | case1 | case2 | case3 | case6 => rintro ⟨⟩
  | case4 | case5 =>
      rintro ⟨⟩
      simpa [Fault.quoted, ParseError.locate] using hnewline

theorem newline_not_mem_quoted {limit : Int} {source : List Char} {e : ParseError}
    (h : parse limit source = .error (.parse e)) : '\n' ∉ e.fault.quoted.toList := by
  rcases parse_eq_error_iff.mp h with ⟨refusal, hread, -, herror⟩ | ⟨hfailure, -⟩
  · obtain rfl : ParseError.locate source refusal.fault _ = e := ReadError.parse.inj herror
    have hnothing : refusal.fault.quoted = "" := (Datum.readAll_occurs hread).quotes_nothing
    show '\n' ∉ refusal.fault.quoted.toList
    rw [hnothing]
    exact List.not_mem_nil
  · have hlex : lex source = ⟨(lex source).tokens, some (.parse e)⟩ := by rw [← hfailure]
    rcases atomAt_of_failure hlex with ⟨offset, heq⟩ | ⟨before, atom, after, hatom, hkind⟩
    · cases heq
      exact List.not_mem_nil
    · exact newline_not_mem_atom_error hatom.isAtomChar hkind

/-- The report of an error is one line. -/
theorem newline_not_mem_message {limit : Int} {source : List Char} {e : ParseError}
    (h : parse limit source = .error (.parse e)) : '\n' ∉ e.message.toList := by
  have hfault := Fault.newline_not_mem_message (newline_not_mem_quoted h)
  have hdigits (n : Nat) : '\n' ∉ n.repr.toList := by
    rw [Nat.toList_repr]
    exact fun hmem => absurd (Numeral.isDigit_toDigits hmem) (by decide)
  refine not_mem_append_toList (not_mem_append_toList (not_mem_append_toList
    (not_mem_append_toList (not_mem_append_toList hfault ?_) (hdigits _)) ?_) (hdigits _)) ?_
  all_goals decide

end TableLisp

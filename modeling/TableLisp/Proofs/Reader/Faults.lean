import TableLisp.Proofs.Reader.Coverage
import TableLisp.Proofs.Text.Position

/-!
# Faults in joined sources

Two texts are joined by a line feed. If the first one is read, the second is read behind it as it is
by itself, and if it has a fault, that is the fault of both, only further on (`fault_behind`): the
reader's errors are placed in their source (`place_of_parse`), and columns do not change behind a
line feed.

If the first one has a fault at a token, the second does not matter: the scan of the first is one of
both (`Scan.joined`), so the tokens up to the fault are the same, and the reader refuses them
without a look at what follows (`Datum.readAll_append`). An atom that is no token ends at the line
feed at the latest. So these faults are final (`fault_is_final`), and only what is missing at the
end of the first text may be found in the second.
-/

namespace TableLisp

open Text

/-! ## Places of faults -/

/-- An error is placed in its source. -/
theorem place_of_parse {limit : Int} {source : List Char} {e : ParseError}
    (h : parse limit source = .error (.parse e)) :
    e.offset ≤ source.length ∧ e = .locate source e.fault e.offset := by
  obtain ⟨rounds, stop, hscan, hends⟩ := exists_scan source
  rcases parse_eq_error_iff.mp h with ⟨refusal, hread, -, herror⟩ | ⟨hfailure, -⟩
  · obtain rfl : ParseError.locate source refusal.fault _ = e := ReadError.parse.inj herror
    refine ⟨?_, rfl⟩
    show refusal.offset.getD source.length ≤ source.length
    cases hoffset : refusal.offset with
    | none => exact Nat.le_refl _
    | some offset =>
        obtain ⟨token, htoken, rfl⟩ := Datum.offset_of_refusal hread hoffset
        have hwithin := hscan.covered.within token htoken
        exact Nat.le_trans (Nat.le_trans (Nat.le_add_right ..) hwithin) hscan.offset_le
  · rw [hfailure] at hends
    rcases hends.at_failure with ⟨fault, heq⟩ | ⟨⟨⟩, -⟩
    cases heq
    exact ⟨hscan.offset_le, rfl⟩

/-- **Faults behind a text.** A text is read, and another one stands behind it on a new line. If
the other one is read by itself, both are read, as the forms of the one and then of the other. If it
has a fault by itself, both have this fault, at the same column, as much further on and as many
lines further down as the first text goes. -/
theorem fault_behind {limit : Int} {first : List Char} {forms : List Form}
    (h : parse limit first = .ok forms) (second : List Char) :
    let joined := first ++ '\n' :: second
    match parse limit second with
    | .ok later => parse limit joined = .ok (forms ++ later)
    | .error (.parse e) => ∃ e', parse limit joined = .error (.parse e') ∧ e'.fault = e.fault ∧
        e'.offset = e.offset + first.length + 1 ∧
        e'.line = e.line + 1 + first.count '\n' ∧ e'.column = e.column
    | .error .numeralTooLong => parse limit joined = .error .numeralTooLong := by
  intro joined
  have hjoined := parse_behind h second
  cases hsecond : parse limit second with
  | ok later =>
      rw [hsecond] at hjoined
      exact hjoined
  | error e =>
      rw [hsecond] at hjoined
      cases e with
      | numeralTooLong => exact hjoined
      | parse e =>
          have hplace : e.position = .ofOffset second e.offset :=
            congrArg ParseError.position (place_of_parse hsecond).2
          refine ⟨_, hjoined, rfl, (Nat.add_assoc ..).symm, ?_, ?_⟩
          · simp only [ParseError.line, ParseError.locate, Position.ofOffset_joined, hplace]
            omega
          · simp only [ParseError.column, ParseError.locate, Position.ofOffset_joined, hplace]

/-- A comment at the end of the first text ends at the line feed, and the parenthesis in the second
one has no partner. -/
theorem fault_behind_comment :
    let first := "(a) ;b".toList
    let second := "'c\n )".toList
    parse 4 first = .ok [.list [.sym "a"]] ∧
      ∃ e, parse 4 (first ++ '\n' :: second) = .error (.parse e) ∧
        e.fault = .unmatchedClose ∧ e.offset = 11 ∧ e.line = 3 ∧ e.column = 2 := by
  intro first second
  have hfirst : parse 4 first = .ok [.list [.sym "a"]] := by decide +kernel
  have hsecond : parse 4 second = .error (.parse ⟨.unmatchedClose, 4, ⟨1, 1⟩⟩) := by
    decide +kernel
  have hjoined := fault_behind hfirst second
  rw [hsecond] at hjoined
  exact ⟨hfirst, hjoined⟩

/-! ## In front of another text -/

namespace Scan

variable {source : List Char} {rounds offset : Nat} {tokens : List Token}

/-- What a scan has found is what lexing has found when it comes to that place. -/
theorem lex_eq (h : Scan source rounds offset tokens) :
    lex source = lexFrom source offset tokens.reverse (source.drop offset) := by
  induction h with
  | start => rfl
  | @round _ offset tokens c rest kind _ hrest hkind ih =>
      rw [ih, hrest, lexFrom_piece hkind, Piece.drop_cut hrest, List.reverse_append]
      cases kind <;> rfl

/-- The scan of a text goes the same way in front of a line feed. -/
theorem joined (h : Scan source rounds offset tokens) (more : List Char) :
    Scan (source ++ '\n' :: more) rounds offset tokens := by
  induction h with
  | start => exact .start
  | @round _ offset _ c rest kind hscan hrest hkind ih =>
      have hcut := Piece.cut_joined (shape_ne_unclosed hkind) more
      have hdrop : (source ++ '\n' :: more).drop offset = c :: (rest ++ '\n' :: more) := by
        rw [List.drop_append_of_le_length hscan.offset_le, hrest, List.cons_append]
      have hround := ih.round hdrop (by rw [hcut]; exact Piece.kind?_elsewhere hkind _ _)
      rw [hcut] at hround
      exact hround

end Scan

theorem lexFrom_tokens (source : List Char) (offset : Nat) (done : List Token)
    (cs : List Char) : ∃ later, (lexFrom source offset done cs).tokens = done.reverse ++ later := by
  fun_induction lexFrom source offset done cs with
  | case1 | case2 => exact ⟨[], (List.append_nil _).symm⟩
  | case3 _ _ _ _ _ _ _ ih => exact ih
  | case4 _ _ _ _ _ _ _ _ ih =>
      obtain ⟨later, hlater⟩ := ih
      exact ⟨_ :: later, by rw [hlater, List.reverse_cons, List.append_assoc]; rfl⟩

/-- The tokens of a text are the first ones of the text in front of a line feed. -/
theorem lex_tokens_joined (source more : List Char) :
    ∃ later, (lex (source ++ '\n' :: more)).tokens = (lex source).tokens ++ later := by
  obtain ⟨rounds, stop, hscan, -⟩ := exists_scan source
  rw [(hscan.joined more).lex_eq]
  obtain ⟨later, hlater⟩ := lexFrom_tokens (source ++ '\n' :: more) stop
    (lex source).tokens.reverse ((source ++ '\n' :: more).drop stop)
  rw [List.reverse_reverse] at hlater
  exact ⟨later, hlater⟩

theorem ParseError.locate_append {source : List Char} {offset : Nat}
    (h : offset ≤ source.length) (fault : Fault) (more : List Char) :
    locate (source ++ more) fault offset = locate source fault offset := by
  simp only [locate, Position.ofOffset_append h]

/-- An atom that is no token ends in front of a line feed, if not before it, and lexing fails there
as if nothing followed. -/
theorem lex_failure_joined {source : List Char} {e : ParseError}
    (h : (lex source).failure = some (.parse e)) (hfault : e.fault ≠ .unterminatedString)
    (more : List Char) : lex (source ++ '\n' :: more) = lex source := by
  obtain ⟨rounds, stop, hscan, hends⟩ := exists_scan source
  rw [h] at hends
  obtain ⟨fault, heq⟩ | ⟨⟨⟩, -⟩ := hends.at_failure
  obtain rfl := ReadError.parse.inj heq
  obtain ⟨c, rest, hrest, hkind⟩ := hends
  have hclosed : (Piece.cut c rest).shape ≠ .unclosed := by
    intro hshape
    rw [Piece.kind?, hshape] at hkind
    cases hkind
    exact hfault rfl
  have hcut := Piece.cut_joined hclosed more
  have hdrop : (source ++ '\n' :: more).drop stop = c :: (rest ++ '\n' :: more) := by
    rw [List.drop_append_of_le_length hscan.offset_le, hrest, List.cons_append]
  have hthere : (Piece.cut c (rest ++ '\n' :: more)).kind? (source ++ '\n' :: more) stop =
      .error (.parse (.locate source fault stop)) := by
    rw [hcut, ← ParseError.locate_append hscan.offset_le fault ('\n' :: more)]
    exact Piece.kind?_move hkind id (source ++ '\n' :: more)
  have hlex : lex (source ++ '\n' :: more) =
      ⟨(lex source).tokens, some (.parse (.locate source fault stop))⟩ := by
    rw [(hscan.joined more).lex_eq, hdrop, lexFrom_cons, hthere, List.reverse_reverse]
  rw [hlex, ← h]

namespace Datum

/-- What is refused at a token is refused whatever follows. -/
theorem readOn_append {limit : Int} {progress : Progress} {tokens : List Token}
    {refusal : Refusal} (h : (readOn limit progress tokens).outcome = .error refusal)
    (hearly : refusal.atEnd = false) (later : List Token) :
    (readOn limit progress (tokens ++ later)).outcome = .error refusal := by
  fun_induction readOn limit progress tokens with
  | case1 => cases h
  | case2 refusal' depth rest => rwa [readOn]
  | case3 stack depth =>
      obtain rfl : missing stack = refusal := Except.error.inj h
      rcases stack with _ | ⟨_ | _ | _, stack⟩ <;> cases hearly
  | case4 form stack depth =>
      cases h
      cases hearly
  | case5 stack depth token rest dot hends =>
      rw [List.cons_append, readOn, hends]
      exact h
  | case6 stack depth token rest hends ih =>
      rw [List.cons_append, readOn, hends]
      by_cases hlast : token.kind = .quote ∧ rest = []
      · obtain ⟨hk, rfl⟩ := hlast
        simp only [shift, hk, List.isEmpty_nil, if_true, readOn] at h
        cases h
        cases hearly
      · have hlast' : ¬ (token.kind = .quote ∧ rest ++ later = []) := by
          rintro ⟨hk, hnil⟩
          exact hlast ⟨hk, (List.append_eq_nil_iff.mp hnil).1⟩
        rw [← shift_of_not_last hlast] at ih h
        rw [← shift_of_not_last hlast']
        exact ih h
  | case7 form stack depth token rest ih =>
      rw [List.cons_append, readOn]
      exact ih h

theorem readAll_append {limit : Int} {tokens : List Token} {refusal : Refusal}
    (h : readAll limit tokens = .error refusal) (hearly : refusal.atEnd = false)
    (later : List Token) : readAll limit (tokens ++ later) = .error refusal := by
  obtain ⟨ts, forms, n, token, rest, rfl, hdata, hn, hrefused⟩ := readAll_refused h
  have hmore : (read limit 0 (token :: (rest ++ later))).outcome = .error refusal :=
    readOn_append hrefused hearly later
  rw [List.append_assoc, List.cons_append, readAll_behind hdata hn, readAll_cons, hmore]
  rfl

end Datum

/-- A fault that nothing behind the source can avert: it is at a token or an atom, not for want of
further tokens. -/
def ParseError.IsFinal (source : List Char) (e : ParseError) : Prop :=
  match e.fault with
  | .unmatchedClose | .strayDot | .tooDeep | .invalidNumber _ | .integerRange _
  | .unexpectedCharacter _ => True
  | .tailNotClosed => e.offset < source.length
  | .unterminatedString | .nothingToRead | .nothingAfterQuote | .nothingAfterDot
  | .unmatchedOpen => False

/-- What is missing at the end of a source is not final, so a final refusal is at a token. -/
theorem Datum.Refusal.Occurs.atToken_of_final {source : List Char} {refusal : Refusal}
    (h : refusal.Occurs)
    (hfinal : (ParseError.locate source refusal.fault
      (refusal.offset.getD source.length)).IsFinal source) :
    refusal.atEnd = false ∧ ∃ offset, refusal.offset = some offset := by
  cases h with
  | atToken offset h => exact ⟨rfl, offset, rfl⟩
  | missing stack => rcases stack with _ | ⟨_ | _ | _, stack⟩ <;> cases hfinal
  | unclosed => exact absurd hfinal (Nat.lt_irrefl _)

/-- **Final faults.** If a source is refused at a token, or for an atom that is no number though it
begins like one or is out of range, then whatever stands behind it on a new line, the whole is
refused for the same reason at the same offset, line and column. -/
theorem fault_is_final {limit : Int} {source : List Char} {e : ParseError}
    (h : parse limit source = .error (.parse e)) (hfinal : e.IsFinal source)
    (more : List Char) : parse limit (source ++ '\n' :: more) = .error (.parse e) := by
  rcases parse_eq_error_iff.mp h with ⟨refusal, hread, -, herror⟩ | ⟨hfailure, hend⟩
  · obtain rfl : ParseError.locate source refusal.fault _ = e := ReadError.parse.inj herror
    obtain ⟨hearly, offset, hoffset⟩ := (Datum.readAll_occurs hread).atToken_of_final hfinal
    have hle := (place_of_parse h).1
    obtain ⟨later, htokens⟩ := lex_tokens_joined source more
    have hmore := Datum.readAll_append hread hearly later
    rw [← htokens] at hmore
    simp only [ParseError.locate, hoffset, Option.getD_some] at hle
    rw [parse_of_refusal hmore hearly, Datum.Refusal.error, hoffset, Option.getD_some,
      Option.getD_some, ParseError.locate_append hle]
  · have hfault : e.fault ≠ .unterminatedString := by
      intro hopen
      rw [ParseError.IsFinal, hopen] at hfinal
      exact hfinal
    have hlex := lex_failure_joined hfailure hfault more
    rw [← hlex] at hfailure hend
    exact parse_eq_error_iff.mpr (.inr ⟨hfailure, hend⟩)

/-- A dotted list goes on behind its tail. The string that is open behind this fault may be closed,
and the list as well, and it is the fault still. -/
theorem tail_goes_on :
    let source := "(a . b c \"d".toList
    let e : ParseError := ⟨.tailNotClosed, 7, ⟨0, 7⟩⟩
    parse 4 source = .error (.parse e) ∧ e.IsFinal source ∧
      parse 4 (source ++ '\n' :: "\")".toList) = .error (.parse e) := by
  intro source e
  have hsource : parse 4 source = .error (.parse e) := by decide +kernel
  have hfinal : e.IsFinal source := by
    show 7 < source.length
    decide
  exact ⟨hsource, hfinal, fault_is_final hsource hfinal _⟩

end TableLisp

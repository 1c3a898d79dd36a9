import TableLisp.Proofs.Reader.Parsing

/-!
# Reading under a larger limit

The limit has a part in one step of the reader, `Datum.descend`, where it either refuses or does
nothing. So two readings under different limits go on alike until the smaller limit refuses, and
this refusal is the answer (`parse_of_le`): it comes at a token, so a lexing failure at the end of
the source never stands in for it.
-/

namespace TableLisp

/-- The source nests deeper than the limit. -/
def ReadError.IsTooDeep : ReadError → Prop
  | .parse e => e.fault = .tooDeep
  | .numeralTooLong => False

instance : DecidablePred ReadError.IsTooDeep
  | .parse e => inferInstanceAs (Decidable (e.fault = .tooDeep))
  | .numeralTooLong => inferInstanceAs (Decidable False)

/-! ## One datum -/

namespace Datum

variable {limit limit' : Int}

/-- A step either runs into the smaller limit or is the same under the larger one. -/
theorem descend_of_le (hle : limit ≤ limit') (opening : Opening) (offset : Nat)
    (stack : List Opening) (depth : Nat) :
    descend limit opening offset stack depth = refuse .tooDeep offset stack depth ∨
      descend limit' opening offset stack depth = descend limit opening offset stack depth := by
  unfold descend
  by_cases h : limit ≤ depth
  · exact Or.inl (if_pos h)
  · rw [if_neg h, if_neg (by omega)]
    exact Or.inr rfl

theorem shift_of_le (hle : limit ≤ limit') (stack : List Opening) (depth : Nat) (token : Token)
    (last : Bool) :
    shift limit stack depth token last = refuse .tooDeep token.offset stack depth ∨
      shift limit' stack depth token last = shift limit stack depth token last := by
  unfold shift
  split
  · exact Or.inr rfl
  · exact Or.inr rfl
  · exact Or.inr rfl
  · split
    · exact Or.inr rfl
    · exact descend_of_le hle _ _ stack depth
  · exact descend_of_le hle _ _ stack depth
  · exact Or.inr rfl
  · exact Or.inr rfl

theorem readOn_of_le (hle : limit ≤ limit') (progress : Progress) (tokens : List Token) :
    (∃ offset, (readOn limit progress tokens).outcome =
      .error ⟨.tooDeep, some offset, false⟩) ∨
        readOn limit' progress tokens = readOn limit progress tokens := by
  fun_induction readOn limit progress tokens with
  | case6 stack depth token rest hends ih =>
      rcases shift_of_le hle stack depth token rest.isEmpty with hdeep | hsame
      · left
        rw [hdeep, refuse, readOn]
        exact ⟨token.offset, rfl⟩
      · rw [readOn, hends, hsame]
        exact ih
  | case7 form stack depth token rest ih => exact ih
  | case5 stack depth token rest dot hends =>
      rw [readOn, hends]
      exact Or.inr rfl
  | _ => exact Or.inr (by rw [readOn])

end Datum

/-! ## All forms -/

namespace TokenStream

/-- The stream under another limit. -/
def withLimit (s : TokenStream) (limit : Int) : TokenStream :=
  { s with limit }

theorem peek_withLimit (s : TokenStream) (limit : Int) :
    (s.withLimit limit).peek = (s.peek.1, s.peek.2.withLimit limit) := by
  obtain ⟨source, _, lookahead, unread, failure, depth⟩ := s
  cases lookahead <;> cases unread <;> cases failure <;> rfl

theorem atEnd_withLimit (s : TokenStream) (limit : Int)
    (outcome : Except ReadError α) :
    (s.withLimit limit).atEnd outcome =
      ((s.atEnd outcome).1, (s.atEnd outcome).2.withLimit limit) := by
  obtain ⟨source, _, lookahead, unread, failure, depth⟩ := s
  cases failure <;> rfl

theorem datum_of_refusal {s : TokenStream} {refusal : Datum.Refusal} {depth : Nat}
    {rest : List Token}
    (h : Datum.read s.limit s.depth s.pending = ⟨.error refusal, depth, rest⟩) :
    s.datum =
      let s' := { s with lookahead := none, unread := rest, depth }
      let e := .parse (.locate s.source refusal.fault (refusal.offset.getD s.source.length))
      if refusal.atEnd then s'.atEnd (.error e) else (.error e, s') := by
  simp only [datum, h]

theorem datum_of_le {s : TokenStream} {limit : Int} (hle : s.limit ≤ limit) :
    (∃ e, s.datum.1 = .error e ∧ e.IsTooDeep) ∨
      (s.withLimit limit).datum = (s.datum.1, s.datum.2.withLimit limit) := by
  cases hread : Datum.read s.limit s.depth s.pending with
  | mk outcome depth rest =>
      rcases Datum.readOn_of_le hle (.reading [] s.depth) s.pending with ⟨offset, hdeep⟩ | hsame
      · left
        obtain rfl : outcome = .error ⟨.tooDeep, some offset, false⟩ := by
          rw [← hdeep, ← Datum.read, hread]
        rw [datum_of_refusal hread]
        exact ⟨_, rfl, rfl⟩
      · right
        have hread' : Datum.read (s.withLimit limit).limit (s.withLimit limit).depth
            (s.withLimit limit).pending = ⟨outcome, depth, rest⟩ := hsame.trans hread
        cases outcome with
        | ok form =>
            rw [datum_of_read hread, datum_of_read hread']
            rfl
        | error refusal =>
            rw [datum_of_refusal hread, datum_of_refusal hread']
            dsimp only
            split
            · exact atEnd_withLimit { s with lookahead := none, unread := rest, depth } limit _
            · rfl

theorem forms_of_le {s : TokenStream} {limit : Int} (hle : s.limit ≤ limit) :
    (∃ e, s.forms.failure = some e ∧ e.IsTooDeep) ∨
      (s.withLimit limit).forms.failure = s.forms.failure ∧
        (s.withLimit limit).forms.forms = s.forms.forms := by
  fun_induction forms s with
  | case1 s e s' hpeek =>
      rw [forms_eq (s.withLimit limit), peek_withLimit, hpeek]
      exact Or.inr ⟨rfl, rfl⟩
  | case2 s s' hpeek =>
      rw [forms_eq (s.withLimit limit), peek_withLimit, hpeek]
      exact Or.inr ⟨rfl, rfl⟩
  | case3 s token s' hpeek e s'' hdatum =>
      have hle' : s'.limit ≤ limit := by
        obtain ⟨rest, -, rfl⟩ := peek_of_some hpeek
        exact hle
      rcases datum_of_le hle' with ⟨e', he, hdeep⟩ | hsame
      · rw [hdatum] at he
        cases he
        exact Or.inl ⟨e, rfl, hdeep⟩
      · right
        rw [forms_eq (s.withLimit limit), peek_withLimit, hpeek]
        simp only [hsame, hdatum, and_self]
  | case4 s token s' hpeek form s'' hdatum hlt later ih =>
      have hle' : s'.limit ≤ limit := by
        obtain ⟨rest, -, rfl⟩ := peek_of_some hpeek
        exact hle
      have hle'' : s''.limit ≤ limit := by
        rw [(read_of_datum hdatum).2.1]
        exact hle'
      rcases datum_of_le hle' with ⟨e', he, hdeep⟩ | hsame
      · rw [hdatum] at he
        cases he
      · rcases ih hle'' with hdeep | ⟨hfailure, hforms⟩
        · exact Or.inl hdeep
        · right
          rw [forms_eq (s.withLimit limit), peek_withLimit, hpeek]
          simp only [hsame, hdatum]
          exact ⟨hfailure, congrArg (form :: ·) hforms⟩

end TokenStream

/-- A source that nests within the smaller limit comes to the same under the larger one. -/
theorem parse_of_le {limit limit' : Int} (hle : limit ≤ limit') (source : List Char) :
    (∃ e, parse limit source = .error e ∧ e.IsTooDeep) ∨
      parse limit' source = parse limit source := by
  unfold parse
  rcases TokenStream.forms_of_le (s := .ofSource source limit) hle with hdeep | ⟨hfailure, hforms⟩
  · obtain ⟨e, he, hdeep⟩ := hdeep
    left
    exact ⟨e, by simp only [he], hdeep⟩
  · right
    have hsame : (TokenStream.ofSource source limit).withLimit limit' =
        .ofSource source limit' := rfl
    rw [hsame] at hfailure hforms
    simp only [hfailure, hforms]

theorem parse_ok_of_le {limit limit' : Int} (hle : limit ≤ limit') {source : List Char}
    {forms : List Form} (h : parse limit source = .ok forms) : parse limit' source = .ok forms := by
  rcases parse_of_le hle source with ⟨e, he, -⟩ | hsame
  · rw [h] at he
    cases he
  · rw [hsame, h]

end TableLisp

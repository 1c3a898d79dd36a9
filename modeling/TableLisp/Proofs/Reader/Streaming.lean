import TableLisp.Proofs.Reader.Faults

/-!
# Forms one at a time

Whoever asks a stream for one form after the other gets the forms that it would read in one go, and
then its end or its failure (`TokenStream.yields_forms`). So the forms in front of a fault are
handed out before the fault is met.

They are all of them: behind their tokens no datum is complete, and it is the one that begins there
that fails (`FailsNext`). A source can be cut off between two pieces, and it is scanned in the same
way up to the cut (`Scan.of_append`). Cut off behind the forms that were handed out it is lexed into
their tokens, and so it is read as these forms and nothing else (`streamed_forms`).
-/

namespace TableLisp

open Text

/-! ## Sources cut off -/

theorem takeWhile_front {p : Char → Bool} {cs front back : List Char}
    (h : cs.dropWhile p = front ++ back) : (cs.takeWhile p ++ front).takeWhile p = cs.takeWhile p ∧
      (cs.takeWhile p ++ front).dropWhile p = front := by
  have hall : ∀ c ∈ cs.takeWhile p, p c = true := List.all_eq_true.mp List.all_takeWhile
  rw [List.takeWhile_append_of_pos hall, List.dropWhile_append_of_pos hall]
  cases front with
  | nil => simp
  | cons c front =>
      have hc : p c = false := by simpa [h] using List.head?_dropWhile_not p cs
      simp [hc]

/-- A piece is the same if its text is cut off behind it. -/
theorem Piece.cut_front {c : Char} {rest front back : List Char}
    (h : (cut c rest).shape ≠ .unclosed) (hrest : (cut c rest).rest = front ++ back) :
    ∃ rest', c :: rest' = (cut c rest).text ++ front ∧
      cut c rest' = { cut c rest with rest := front } := by
  revert h hrest
  fun_cases cut c rest with
  | case1 hblank => exact fun _ _ => ⟨front, rfl, by simp [cut, hblank]⟩
  | case2 hblank hsemi =>
      intro _ hrest
      obtain ⟨htake, hdrop⟩ := takeWhile_front hrest
      exact ⟨_, rfl, by simp [cut, isBlank, hsemi, htake, hdrop]⟩
  | case3 hblank hsemi hq => exact fun _ _ => ⟨front, rfl, by simp [cut, isBlank, hq]⟩
  | case4 hblank hsemi hq hl => exact fun _ _ => ⟨front, rfl, by simp [cut, isBlank, hl]⟩
  | case5 hblank hsemi hq hl hr => exact fun _ _ => ⟨front, rfl, by simp [cut, isBlank, hr]⟩
  | case6 => exact fun h => absurd rfl h
  | case7 hblank hsemi hq hl hr hs close rest' hclose =>
      intro _ hrest
      rw [show rest' = front ++ back from hrest, ← List.cons_append] at hclose
      obtain ⟨htake, hdrop⟩ := takeWhile_front hclose
      refine ⟨rest.takeWhile (· != '"') ++ close :: front, by simp, ?_⟩
      simp [cut, isBlank, hs, htake, hdrop]
  | case8 hblank hsemi hq hl hr hs hc =>
      intro _ hrest
      obtain ⟨htake, hdrop⟩ := takeWhile_front hrest
      exact ⟨_, rfl, by simp [cut, hblank, hsemi, hq, hl, hr, hs, hc, htake, hdrop]⟩
  | case9 hblank hsemi hq hl hr hs hc =>
      exact absurd (isAtomChar_of_other hblank hsemi hq hl hr hs) hc

namespace Scan

/-- The scan of a source is one of the source cut off at or behind the place it has come to. -/
theorem of_append {before after : List Char} {rounds offset : Nat} {tokens : List Token}
    (h : Scan (before ++ after) rounds offset tokens) (hle : offset ≤ before.length) :
    Scan before rounds offset tokens := by
  induction h with
  | start => exact .start
  | @round _ offset _ c rest kind _ hrest hkind ih =>
      have hbefore : offset ≤ before.length := Nat.le_trans (Nat.le_add_right ..) hle
      have hpiece := Piece.drop_cut hrest
      rw [List.drop_append_of_le_length hle] at hpiece
      obtain ⟨rest', htext, hcut⟩ := Piece.cut_front (shape_ne_unclosed hkind) hpiece.symm
      have hdrop : before.drop offset = c :: rest' := by
        have hsource := Piece.drop_eq_cut hrest
        rw [List.drop_append_of_le_length hbefore, ← hpiece, ← List.append_assoc] at hsource
        rw [htext]
        exact List.append_cancel_right hsource
      have hround := (ih hbefore).round hdrop (by rw [hcut]; exact Piece.kind?_elsewhere hkind _ _)
      rw [hcut] at hround
      exact hround

/-- Where a scan has come to, the source can be cut off. -/
theorem lex_take {source : List Char} {rounds offset : Nat} {tokens : List Token}
    (h : Scan source rounds offset tokens) : lex (source.take offset) = ⟨tokens, none⟩ := by
  have hlength : (source.take offset).length = offset := List.length_take_of_le h.offset_le
  rw [← List.take_append_drop offset source] at h
  have hfront := (h.of_append (Nat.le_of_eq hlength.symm)).lex_eq
  rwa [List.drop_eq_nil_of_le (Nat.le_of_eq hlength), lexFrom_nil, List.reverse_reverse] at hfront

/-- A scan has found its first tokens at an offset in front of the others. -/
theorem of_tokens_append {source : List Char} {rounds offset : Nat} {ts later : List Token}
    (h : Scan source rounds offset (ts ++ later)) :
    ∃ rounds' place, Scan source rounds' place ts ∧ place ≤ offset ∧
      ∀ token ∈ later, place ≤ token.offset := by
  generalize htokens : ts ++ later = tokens at h
  induction h generalizing later with
  | start =>
      obtain ⟨rfl, rfl⟩ := List.append_eq_nil_iff.mp htokens
      exact ⟨0, 0, .start, Nat.le_refl 0, List.forall_mem_nil _⟩
  | @round rounds offset tokens c rest kind hscan hrest hkind ih =>
      rcases later.eq_nil_or_concat' with rfl | ⟨earlier, last, rfl⟩
      · rw [List.append_nil] at htokens
        have hround := hscan.round hrest hkind
        rw [← htokens] at hround
        exact ⟨_, _, hround, Nat.le_refl _, List.forall_mem_nil _⟩
      · have hnext := Nat.le_add_right offset (Piece.cut c rest).text.length
        cases kind with
        | none =>
            rw [Piece.token?, Option.map_none, Option.toList_none, List.append_nil] at htokens
            obtain ⟨rounds', place, hts, hle, hlater⟩ := ih htokens
            exact ⟨rounds', place, hts, Nat.le_trans hle hnext, hlater⟩
        | some kind =>
            rw [← List.append_assoc] at htokens
            obtain ⟨hearlier, hlast⟩ := List.append_inj' htokens rfl
            obtain rfl := List.head_eq_of_cons_eq hlast
            obtain ⟨rounds', place, hts, hle, hlater⟩ := ih hearlier
            exact ⟨rounds', place, hts, Nat.le_trans hle hnext, List.forall_mem_append.mpr
              ⟨hlater, List.forall_mem_singleton.mpr hle⟩⟩

end Scan

/-! ## Requests for the next form -/

namespace TokenStream

/-- What requests for the next form are answered with, one after the other: some forms, and then the
end, or a failure and then the end. -/
inductive Iteration.Yields : Iteration → List Form → Option ReadError → Prop
  | ended {it it' : Iteration} (h : it.next = (.ended, it')) (hend : it'.ended = true) :
      Yields it [] none
  | failed {it it' : Iteration} {e : ReadError} (h : it.next = (.failed e, it'))
      (hend : it'.ended = true) : Yields it [] (some e)
  | form {it it' : Iteration} {form : Form} {forms : List Form} {failure : Option ReadError}
      (h : it.next = (.form form, it')) (hrest : Yields it' forms failure) :
      Yields it (form :: forms) failure

/-- Form by form, a stream hands out what it reads in one go. -/
theorem yields_forms (s : TokenStream) :
    (Iteration.mk s false).Yields s.forms.forms s.forms.failure := by
  fun_induction forms s with
  | case1 s e s' hpeek =>
      have hnext : (Iteration.mk s false).next = (.failed e, ⟨s', true⟩) := by
        simp [Iteration.next, hpeek]
      exact .failed hnext rfl
  | case2 s s' hpeek =>
      have hnext : (Iteration.mk s false).next = (.ended, ⟨s', true⟩) := by
        simp [Iteration.next, hpeek]
      exact .ended hnext rfl
  | case3 s token s' hpeek e s'' hdatum =>
      have hnext : (Iteration.mk s false).next = (.failed e, ⟨s'', true⟩) := by
        simp [Iteration.next, hpeek, hdatum]
      exact .failed hnext rfl
  | case4 s token s' hpeek form s'' hdatum hlt later ih =>
      have hnext : (Iteration.mk s false).next = (.form form, ⟨s'', false⟩) := by
        simp [Iteration.next, hpeek, hdatum]
      exact .form hnext ih

end TokenStream

/-! ## In front of a fault -/

namespace Datum

variable {limit : Int} {tokens : List Token} {refusal : Refusal}

/-- Where a datum is refused, none is complete. -/
theorem lt_of_refused (h : (read limit 0 tokens).outcome = .error refusal) {ts later : List Token}
    {form : Form} {n : Nat} (htokens : tokens = ts ++ later) (hdatum : IsDatum ts form n) :
    limit.toNat < n := by
  refine Nat.lt_of_not_le fun hn => ?_
  rw [htokens, read_datum hdatum (levelsLeft_zero limit ▸ hn) later] at h
  cases h

/-- A datum that is refused at an offset is refused at one of its tokens. -/
theorem offset_of_read (h : (read limit 0 tokens).outcome = .error refusal) {offset : Nat}
    (hoffset : refusal.offset = some offset) : ∃ token ∈ tokens, token.offset = offset := by
  cases tokens with
  | nil =>
      cases h
      cases hoffset
  | cons token later =>
      have hread : readAll limit (token :: later) = .error refusal := by rw [readAll_cons, h]
      exact offset_of_refusal hread hoffset

theorem Refusal.of_shown {source : List Char} {failure : Option ReadError} {e : ReadError}
    (h : refusal.shown source failure = e) : failure = some e ∨ refusal.error source = e := by
  unfold shown at h
  split at h
  · cases failure with
    | none => exact .inr h
    | some _ => exact .inl (congrArg some h)
  · exact .inr h

end Datum

/-- What fails with an error is the datum at the head of some tokens of a source: none is complete
there within the limit, and the error is how the refusal of this one shows. -/
structure FailsNext (limit : Int) (source : List Char) (rest : List Token) (e : ReadError) :
    Prop where
  incomplete {ts later : List Token} {form : Form} {n : Nat} (hrest : rest = ts ++ later)
    (hdatum : IsDatum ts form n) : limit.toNat < n
  refused : ∃ refusal, (Datum.read limit 0 rest).outcome = .error refusal ∧
    refusal.shown source (lex source).failure = e

/-- Where a stream stops handing out the forms of a source: their tokens are those of the source cut
off at that place, and behind it the next datum fails. -/
structure StopsAt (limit : Int) (source : List Char) (forms : List Form) (e : ReadError)
    (place : Nat) : Prop where
  parse_take : parse limit (source.take place) = .ok forms
  fails : ∃ rest, (lex source).tokens = (lex (source.take place)).tokens ++ rest ∧
    (∀ token ∈ rest, place ≤ token.offset) ∧ FailsNext limit source rest e
  offset_ge {fault : ParseError} (he : e = .parse fault) : place ≤ fault.offset

/-- A stream that fails has handed out all forms in front of the datum that does. -/
theorem stopsAt_of_failure {limit : Int} {source : List Char} {e : ReadError}
    (h : (TokenStream.ofSource source limit).forms.failure = some e) :
    ∃ place, StopsAt limit source (TokenStream.ofSource source limit).forms.forms e place := by
  obtain ⟨rounds, stop, hscan, hends⟩ := exists_scan source
  obtain ⟨ts, rest, n, hpending, hdata, hn, hfails⟩ :=
    (TokenStream.ofSource source limit).forms_split
  rw [h] at hfails
  obtain ⟨refusal, hrefused, hshown⟩ := hfails
  have htokens : (lex source).tokens = ts ++ rest := hpending
  have hstop := hscan.offset_le
  rw [htokens] at hscan
  obtain ⟨rounds', place, hts, hle, hlater⟩ := hscan.of_tokens_append
  refine ⟨place, parse_eq_ok_iff.mpr ?_, ⟨rest, ?_, hlater, ?_⟩, ?_⟩
  · rw [hts.lex_take]
    exact ⟨rfl, n, hdata, Datum.levelsLeft_zero limit ▸ hn⟩
  · rw [hts.lex_take]
    exact htokens
  · exact ⟨Datum.lt_of_refused hrefused, refusal, hrefused, hshown⟩
  · rintro fault rfl
    rcases Datum.Refusal.of_shown hshown with hfailure | herror
    · rw [show (lex source).failure = _ from hfailure] at hends
      rcases hends.at_failure with ⟨_, heq⟩ | ⟨⟨⟩, -⟩
      rw [ReadError.parse.inj heq]
      exact hle
    · rw [← ReadError.parse.inj herror]
      show place ≤ refusal.offset.getD source.length
      cases hoffset : refusal.offset with
      | none => exact Nat.le_trans hle hstop
      | some offset =>
          obtain ⟨t, ht, rfl⟩ := Datum.offset_of_read hrefused hoffset
          exact hlater t ht

/-- **Streaming.** Requests for one form after the other are answered with the forms of the source,
and then with its end or its failure. At the end, they are what the source is read as. At a failure,
the source is refused for it, and they are what the source up to some place is read as, not behind
the fault: all forms before the one that fails, as the next datum behind that place does, and
nothing of that one. -/
theorem streamed_forms (limit : Int) (source : List Char) :
    let stream := TokenStream.ofSource source limit
    let read := stream.forms
    (TokenStream.Iteration.mk stream false).Yields read.forms read.failure ∧
      match read.failure with
      | none => parse limit source = .ok read.forms
      | some e => parse limit source = .error e ∧
          ∃ place, StopsAt limit source read.forms e place := by
  intro stream read
  refine ⟨stream.yields_forms, ?_⟩
  have hparse : parse limit source = read.outcome := rfl
  unfold TokenStream.Forms.outcome at hparse
  cases hfailure : read.failure with
  | none =>
      rw [hfailure] at hparse
      exact hparse
  | some e =>
      rw [hfailure] at hparse
      exact ⟨hparse, stopsAt_of_failure hfailure⟩

end TableLisp

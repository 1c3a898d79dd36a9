import TableLisp.Proofs.Reader.Soundness
import TableLisp.Reader.TokenStream

/-!
# Reading all forms

A stream reads forms until its tokens are used up. Each step is a reading of one datum
(`Datum.read_eq_ok_iff`), so a stream reads everything exactly if its tokens are data that
nest within the limit and no lexing failure waits behind them (`TokenStream.forms_iff_isData`).
-/

namespace TableLisp

/-! ## Errors of refusals -/

namespace Datum

/-- The error of a refusal, in the source that the tokens are from. -/
def Refusal.error (source : List Char) (refusal : Refusal) : ReadError :=
  .parse (.locate source refusal.fault (refusal.offset.getD source.length))

/-- The error that a refusal shows as. At the end of the tokens a lexing failure that waits there
comes before it. -/
def Refusal.shown (source : List Char) (failure : Option ReadError) (refusal : Refusal) :
    ReadError :=
  if refusal.atEnd then failure.getD (refusal.error source) else refusal.error source

end Datum

namespace TokenStream

/-- One round of reading all forms. -/
theorem forms_eq (s : TokenStream) :
    s.forms =
      match s.peek with
      | (.error e, s') => ⟨[], some e, s'⟩
      | (.ok none, s') => ⟨[], none, s'⟩
      | (.ok (some _), s') =>
        match s'.datum with
        | (.error e, s'') => ⟨[], some e, s''⟩
        | (.ok form, s'') => { s''.forms with forms := form :: s''.forms.forms } := by
  rw [forms]
  split
  · next h => rw [h]
  · next h => rw [h]
  · next h =>
      split <;> next h' => simp only [h, h']

/-! ## Single steps -/

theorem peek_eq_ended {s s' : TokenStream} (h : s.peek = (.ok none, s')) :
    s.pending = [] ∧ s.failure = none := by
  unfold peek atEnd at h
  unfold pending
  repeat' split at h
  all_goals simp_all

theorem failure_of_peek {s s' : TokenStream} {e : ReadError} (h : s.peek = (.error e, s')) :
    s.pending = [] ∧ s.failure = some e := by
  unfold peek atEnd at h
  unfold pending
  repeat' split at h
  all_goals simp_all

theorem peek_of_pending_nil {s : TokenStream} (hp : s.pending = []) (hf : s.failure = none) :
    s.peek = (.ok none, s) := by
  obtain ⟨hlookahead, hunread⟩ := List.append_eq_nil_iff.mp hp
  rw [Option.toList_eq_nil_iff] at hlookahead
  simp [peek, atEnd, hlookahead, hunread, hf]

theorem peek_of_pending_cons {s : TokenStream} {token : Token} {rest : List Token}
    (hp : s.pending = token :: rest) :
    s.peek = (.ok (some token), { s with lookahead := some token, unread := rest }) := by
  obtain ⟨source, limit, lookahead, unread, failure, depth⟩ := s
  cases lookahead with
  | none =>
      obtain rfl : unread = token :: rest := hp
      rfl
  | some next =>
      obtain ⟨rfl, rfl⟩ : next = token ∧ unread = rest := List.cons.inj hp
      rfl

theorem peek_of_some {s s' : TokenStream} {token : Token}
    (h : s.peek = (.ok (some token), s')) :
    ∃ rest, s.pending = token :: rest ∧
      s' = { s with lookahead := some token, unread := rest } := by
  obtain ⟨rest, hrest⟩ := pending_of_peek (congrArg Prod.fst h)
  rw [peek_of_pending_cons hrest] at h
  cases h
  exact ⟨rest, hrest, rfl⟩

/-- A stream reads a datum if the reader reads one off the tokens to come. -/
theorem datum_of_read {s : TokenStream} {form : Form} {depth : Nat} {rest : List Token}
    (h : Datum.read s.limit s.depth s.pending = ⟨.ok form, depth, rest⟩) :
    s.datum = (.ok form, { s with lookahead := none, unread := rest, depth }) := by
  simp only [datum, h]

theorem datum_eq_ok {s s' : TokenStream} {form : Form} (h : s.datum = (.ok form, s')) :
    ∃ depth rest, Datum.read s.limit s.depth s.pending = ⟨.ok form, depth, rest⟩ ∧
      s' = { s with lookahead := none, unread := rest, depth } := by
  cases hread : Datum.read s.limit s.depth s.pending with
  | mk outcome depth rest =>
      cases outcome with
      | ok form' =>
          rw [datum_of_read hread] at h
          cases h
          exact ⟨depth, rest, rfl, rfl⟩
      | error refusal =>
          simp only [datum, hread, atEnd] at h
          repeat' split at h
          all_goals cases h

theorem read_of_datum {s s' : TokenStream} {form : Form} (h : s.datum = (.ok form, s')) :
    Datum.read s.limit s.depth s.pending = ⟨.ok form, s'.depth, s'.pending⟩ ∧
      s'.limit = s.limit ∧ s'.failure = s.failure := by
  obtain ⟨depth, rest, hread, rfl⟩ := datum_eq_ok h
  exact ⟨hread, rfl, rfl⟩

theorem datum_of_refused {s : TokenStream} {refusal : Datum.Refusal}
    (h : (Datum.read s.limit s.depth s.pending).outcome = .error refusal) :
    ∃ s', s.datum = (.error (refusal.shown s.source s.failure), s') := by
  simp only [datum, h, atEnd, Datum.Refusal.shown]
  cases refusal.atEnd <;> cases s.failure <;> exact ⟨_, rfl⟩

theorem refused_of_datum {s s' : TokenStream} {e : ReadError} (h : s.datum = (.error e, s')) :
    ∃ refusal, (Datum.read s.limit s.depth s.pending).outcome = .error refusal ∧
      refusal.shown s.source s.failure = e := by
  cases houtcome : (Datum.read s.limit s.depth s.pending).outcome with
  | ok form =>
      rw [datum_of_read (by rw [← houtcome])] at h
      cases h
  | error refusal =>
      obtain ⟨_, hdatum⟩ := datum_of_refused houtcome
      rw [hdatum] at h
      cases h
      exact ⟨refusal, rfl, rfl⟩

/-! ## All forms -/

/-- A stream reads the data in front of it. Then nothing is left, or what is left is refused and the
refusal shows; at the end of the tokens one shows as the lexing failure. -/
theorem forms_split (s : TokenStream) :
    ∃ ts rest n, s.pending = ts ++ rest ∧ IsData ts s.forms.forms n ∧
      n ≤ Datum.levelsLeft s.limit s.depth ∧
      match s.forms.failure with
      | none => rest = [] ∧ s.failure = none
      | some e => ∃ refusal, (Datum.read s.limit s.depth rest).outcome = .error refusal ∧
          refusal.shown s.source s.failure = e := by
  fun_induction forms s with
  | case1 s e s' hpeek =>
      obtain ⟨hpending, hfailure⟩ := failure_of_peek hpeek
      refine ⟨[], s.pending, 0, rfl, .nil, Nat.zero_le _, Datum.missing [], ?_, ?_⟩
      · rw [hpending]
        rfl
      · rw [hfailure]
        rfl
  | case2 s s' hpeek =>
      obtain ⟨hpending, hfailure⟩ := peek_eq_ended hpeek
      exact ⟨[], s.pending, 0, rfl, .nil, Nat.zero_le _, hpending, hfailure⟩
  | case3 s token s' hpeek e s'' hdatum =>
      obtain ⟨rest, hpending, rfl⟩ := peek_of_some hpeek
      refine ⟨[], s.pending, 0, rfl, .nil, Nat.zero_le _, ?_⟩
      rw [hpending]
      exact refused_of_datum hdatum
  | case4 s token s' hpeek form s'' hdatum hlt later ih =>
      obtain ⟨rest, hpending, rfl⟩ := peek_of_some hpeek
      obtain ⟨depth, rest', hread, rfl⟩ := datum_eq_ok hdatum
      obtain ⟨rfl, us, m, htokens, hform, hm⟩ := Datum.read_eq_ok_iff.mp hread
      obtain ⟨ts, left, n, hlater, hforms, hn, hend⟩ := ih
      refine ⟨us ++ ts, left, max m n, ?_, .cons hform hforms, Nat.max_le.mpr ⟨hm, hn⟩, hend⟩
      rw [List.append_assoc, ← hlater, hpending]
      exact htokens

/-- A stream that reads everything had nothing but data to read, and no failure behind them. -/
theorem isData_of_forms (s : TokenStream) (h : s.forms.failure = none) :
    s.failure = none ∧
      ∃ n, IsData s.pending s.forms.forms n ∧ n ≤ Datum.levelsLeft s.limit s.depth := by
  obtain ⟨ts, rest, n, hpending, hforms, hn, hend⟩ := s.forms_split
  rw [h] at hend
  obtain ⟨rfl, hfailure⟩ := hend
  rw [List.append_nil] at hpending
  exact ⟨hfailure, n, hpending ▸ hforms, hn⟩

/-- A stream over data that nest within the limit reads them all. -/
theorem forms_of_isData : ∀ {ts : List Token} {forms : List Form} {n : Nat}, IsData ts forms n →
    ∀ {s : TokenStream}, s.pending = ts → s.failure = none →
      n ≤ Datum.levelsLeft s.limit s.depth →
      s.forms.failure = none ∧ s.forms.forms = forms
  | _, _, _, .nil, s, hp, hf, _ => by
      rw [forms_eq, peek_of_pending_nil hp hf]
      exact ⟨rfl, rfl⟩
  | _, _, _, @IsData.cons _ us form _ _ _ h hrest, s, hp, hf, hn => by
      obtain ⟨token, ts, rfl, -⟩ := h.begins
      let s' := { s with lookahead := some token, unread := ts ++ us }
      let s'' := { s with lookahead := none, unread := us }
      have hpeek : s.peek = (.ok (some token), s') := peek_of_pending_cons hp
      have hdatum : s'.datum = (.ok form, s'') :=
        datum_of_read (Datum.read_datum h (Nat.le_trans (Nat.le_max_left ..) hn) us)
      obtain ⟨hnone, hforms⟩ : s''.forms.failure = none ∧ s''.forms.forms = _ :=
        forms_of_isData hrest rfl hf (Nat.le_trans (Nat.le_max_right ..) hn)
      rw [forms_eq, hpeek]
      simp only [hdatum]
      exact ⟨hnone, congrArg (form :: ·) hforms⟩

/-! ## Streams over given tokens -/

end TokenStream

end TableLisp

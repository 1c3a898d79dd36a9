import TableLisp.Proofs.Reader.Descent

/-!
# Requests to a stream

Whoever uses a stream may ask it for tokens and for data in any order, and may go on after a
failure. What a stream answers depends on nothing but the tokens that are still to come
(`Remaining`). For two kinds of stream this is shown in the same way: each request is answered as
the tokens to come answer it, and leaves a stream over the tokens that they leave
(`answerAll_of_step`). One is `TokenStream`; the other descends and keeps a buffer (`Descent`).

So what holds of the tokens to come holds of both (`requests_to_stream`). They only ever lose tokens
in front, and for a form just those of its datum; and looking at them changes nothing.
-/

namespace TableLisp

open Datum (Refusal)

/-! ## The tokens to come -/

/-- What is read off some tokens form by form, up to their end or to a refusal. -/
structure Swept where
  forms : List Form
  refusal : Option Refusal
  rest : List Token

/-- Puts one form in front. -/
def Swept.cons (form : Form) (swept : Swept) : Swept :=
  { swept with forms := form :: swept.forms }

/-- Reads forms off some tokens as long as there are any. -/
def sweep (limit : Int) : List Token → Swept
  | [] => ⟨[], none, []⟩
  | token :: rest =>
    match (Datum.read limit 0 (token :: rest)).outcome with
    | .error refusal => ⟨[], some refusal, (Datum.read limit 0 (token :: rest)).rest⟩
    | .ok form => (sweep limit (Datum.read limit 0 (token :: rest)).rest).cons form
termination_by tokens => tokens.length
decreasing_by exact Datum.length_rest_lt limit 0 token rest

namespace TokenStream

/-- The answer that the reading of a datum gives. -/
def Answer.ofDatum (text : List Char) (outcome : Except Refusal Form) : Answer :=
  .ofExcept .form (outcome.mapError (Refusal.error text))

/-- The tokens still to come, and whether the iteration through the forms has ended. -/
structure Remaining where
  tokens : List Token
  ended : Bool

/-- Answers one request from the tokens to come. -/
def Remaining.answer (limit : Int) (text : List Char) (r : Remaining) :
    Request → Answer × Remaining
  | .peek => (.token r.tokens.head?, r)
  | .advance => (.token r.tokens.head?, { r with tokens := r.tokens.tail })
  | .datum =>
    let reading := Datum.read limit 0 r.tokens
    (.ofDatum text reading.outcome, { r with tokens := reading.rest })
  | .next =>
    if r.ended || r.tokens.isEmpty then (.ended, { r with ended := true })
    else
      let reading := Datum.read limit 0 r.tokens
      (.ofDatum text reading.outcome, ⟨reading.rest, !reading.outcome.isOk⟩)
  | .forms =>
    let swept := sweep limit r.tokens
    (.forms swept.forms (swept.refusal.map (Refusal.error text)), { r with tokens := swept.rest })

/-- Answers some requests, one after the other. -/
def answerAll {σ : Type} (answer : σ → Request → Answer × σ) (s : σ) :
    List Request → List (Request × Answer) × σ
  | [] => ([], s)
  | request :: rest =>
    let first := answer s request
    let later := answerAll answer first.2 rest
    ((request, first.1) :: later.1, later.2)

/-- If one request is answered alike in states that correspond, and leads to such states again, so
are all requests. -/
theorem answerAll_of_step {σ τ : Type} {answer : σ → Request → Answer × σ}
    {answer' : τ → Request → Answer × τ} {R : σ → τ → Prop}
    (hstep : ∀ s t request, R s t → (answer s request).1 = (answer' t request).1 ∧
      R (answer s request).2 (answer' t request).2) :
    ∀ (requests : List Request) {s : σ} {t : τ}, R s t →
      (answerAll answer s requests).1 = (answerAll answer' t requests).1 ∧
        R (answerAll answer s requests).2 (answerAll answer' t requests).2
  | [], _, _, h => ⟨rfl, h⟩
  | request :: rest, s, t, h => by
      obtain ⟨hanswer, hnext⟩ := hstep s t request h
      obtain ⟨hanswers, hlast⟩ := answerAll_of_step hstep rest hnext
      refine ⟨?_, hlast⟩
      rw [answerAll, answerAll, hanswer, hanswers]

end TokenStream

/-! ## What answers do to the tokens to come -/

/-- What a reading leaves is behind what it takes. -/
theorem Datum.rest_readOn_suffix (limit : Int) (progress : Progress) (tokens : List Token) :
    (readOn limit progress tokens).rest <:+ tokens := by
  fun_induction readOn limit progress tokens with
  | case1 | case2 | case5 => exact List.suffix_refl _
  | case3 | case4 => exact List.suffix_refl []
  | case6 stack depth token rest hends ih => exact ih.trans (List.suffix_cons ..)
  | case7 form stack depth token rest ih => exact ih.trans (List.suffix_cons ..)

/-- A datum that is read is taken, token by token, and nothing else is. -/
theorem Datum.isDatum_of_read {limit : Int} {tokens : List Token} {form : Form}
    (h : (Datum.read limit 0 tokens).outcome = .ok form) :
    ∃ ts n, tokens = ts ++ (Datum.read limit 0 tokens).rest ∧ IsDatum ts form n ∧
      n ≤ limit.toNat := by
  have hread : Datum.read limit 0 tokens = ⟨.ok form, (Datum.read limit 0 tokens).depth,
      (Datum.read limit 0 tokens).rest⟩ := by
    rw [← h]
  obtain ⟨-, ts, n, htokens, hdatum, hn⟩ := read_eq_ok_iff.mp hread
  exact ⟨ts, n, htokens, hdatum, levelsLeft_zero limit ▸ hn⟩

/-- The forms that are read off some tokens are those of the data in front. -/
theorem isData_of_sweep (limit : Int) (tokens : List Token) :
    ∃ ts left n, tokens = ts ++ left ∧ IsData ts (sweep limit tokens).forms n ∧
      n ≤ limit.toNat ∧ (sweep limit tokens).rest <:+ left ∧
      ((sweep limit tokens).refusal = none → left = []) := by
  fun_induction sweep limit tokens with
  | case1 => exact ⟨[], [], 0, rfl, .nil, Nat.zero_le _, List.suffix_refl [], fun _ => rfl⟩
  | case2 token rest refusal hrefused =>
      refine ⟨[], token :: rest, 0, rfl, .nil, Nat.zero_le _, Datum.rest_readOn_suffix .., ?_⟩
      rintro ⟨⟩
  | case3 token rest form hform ih =>
      obtain ⟨us, m, htokens, hdatum, hm⟩ := Datum.isDatum_of_read hform
      obtain ⟨ts, left, n, hlater, hdata, hn, hleft, hend⟩ := ih
      refine ⟨us ++ ts, left, max m n, ?_, .cons hdatum hdata, Nat.max_le.mpr ⟨hm, hn⟩, hleft, hend⟩
      rw [List.append_assoc, ← hlater]
      exact htokens

namespace TokenStream

/-- What an answer to a request has to do with the tokens to come before and behind it. -/
def Answer.Accounts (limit : Int) (before after : List Token) : Request → Answer → Prop
  | .peek, .token seen => seen = before.head? ∧ after = before
  | .advance, .token taken => taken = before.head? ∧ after = before.tail
  | .datum, .form one | .next, .form one =>
    ∃ ts n, before = ts ++ after ∧ IsDatum ts one n ∧ n ≤ limit.toNat
  | .forms, .forms all failure =>
    ∃ ts left n, before = ts ++ left ∧ IsData ts all n ∧ n ≤ limit.toNat ∧ after <:+ left ∧
      (failure = none → left = [])
  | .datum, .failed _ | .next, .failed _ => after <:+ before
  | .next, .ended => after = before
  | _, _ => False

theorem Answer.Accounts.suffix {limit : Int} {before after : List Token} {request : Request}
    {answer : Answer} (h : answer.Accounts limit before after request) : after <:+ before := by
  unfold Accounts at h
  split at h
  · exact h.2 ▸ List.suffix_refl _
  · exact h.2 ▸ List.tail_suffix _
  · obtain ⟨ts, n, rfl, -⟩ := h
    exact List.suffix_append ..
  · obtain ⟨ts, n, rfl, -⟩ := h
    exact List.suffix_append ..
  · obtain ⟨ts, left, n, rfl, -, -, hleft, -⟩ := h
    exact hleft.trans (List.suffix_append ..)
  · exact h
  · exact h
  · exact h ▸ List.suffix_refl _
  · exact h.elim

theorem Remaining.accounts (limit : Int) (text : List Char) (r : Remaining) (request : Request) :
    (r.answer limit text request).1.Accounts limit r.tokens
      (r.answer limit text request).2.tokens request := by
  cases request with
  | peek => exact ⟨rfl, rfl⟩
  | advance => exact ⟨rfl, rfl⟩
  | datum =>
      simp only [answer]
      cases houtcome : (Datum.read limit 0 r.tokens).outcome with
      | ok form => exact Datum.isDatum_of_read houtcome
      | error refusal => exact Datum.rest_readOn_suffix ..
  | next =>
      simp only [answer]
      split
      · rfl
      · cases houtcome : (Datum.read limit 0 r.tokens).outcome with
        | ok form => exact Datum.isDatum_of_read houtcome
        | error refusal => exact Datum.rest_readOn_suffix ..
  | forms =>
      obtain ⟨ts, left, n, htokens, hdata, hn, hleft, hend⟩ := isData_of_sweep limit r.tokens
      exact ⟨ts, left, n, htokens, hdata, hn, hleft, fun h => hend (Option.map_eq_none_iff.mp h)⟩

/-! ## Steps over the tokens to come -/

/-- The steps of a stream, of whatever kind it is. -/
structure Steps (σ : Type) where
  peek : σ → Except ReadError (Option Token) × σ
  advance : σ → Except ReadError (Option Token) × σ
  datum : σ → Except ReadError Form × σ
  forms : σ → (List Form × Option ReadError) × σ

namespace Steps

variable {σ : Type}

/-- Takes the next form of the iteration through a stream, and tells whether it ends there. -/
def next (steps : Steps σ) (s : σ) : Answer × σ × Bool :=
  match steps.peek s with
  | (.error e, s) => (.failed e, s, true)
  | (.ok none, s) => (.ended, s, true)
  | (.ok (some _), s) =>
    match steps.datum s with
    | (.error e, s) => (.failed e, s, true)
    | (.ok form, s) => (.form form, s, false)

/-- Answers one request to a stream, or to the iteration through it. -/
def answer (steps : Steps σ) (it : σ × Bool) : Request → Answer × σ × Bool
  | .peek => (.ofExcept .token (steps.peek it.1).1, (steps.peek it.1).2, it.2)
  | .advance => (.ofExcept .token (steps.advance it.1).1, (steps.advance it.1).2, it.2)
  | .datum => (.ofExcept .form (steps.datum it.1).1, (steps.datum it.1).2, it.2)
  | .next => if it.2 then (.ended, it) else steps.next it.1
  | .forms => (.forms (steps.forms it.1).1.1 (steps.forms it.1).1.2, (steps.forms it.1).2, it.2)

/-- The steps of a stream over some tokens do with it what becomes of the tokens. -/
structure Follow (steps : Steps σ) (limit : Int) (text : List Char)
    (Over : List Token → σ → Prop) : Prop where
  peek : ∀ {tokens s}, Over tokens s →
    ∃ s', steps.peek s = (.ok tokens.head?, s') ∧ Over tokens s'
  advance : ∀ {tokens s}, Over tokens s →
    ∃ s', steps.advance s = (.ok tokens.head?, s') ∧ Over tokens.tail s'
  datum : ∀ {tokens s}, Over tokens s →
    ∃ s', steps.datum s =
        ((Datum.read limit 0 tokens).outcome.mapError (Refusal.error text), s') ∧
      Over (Datum.read limit 0 tokens).rest s'
  forms : ∀ {tokens s}, Over tokens s →
    ∃ s', steps.forms s = (((sweep limit tokens).forms,
        (sweep limit tokens).refusal.map (Refusal.error text)), s') ∧
      Over (sweep limit tokens).rest s'

/-- A stream stands where the tokens to come say, and so does the iteration through it. -/
def StandsAt (Over : List Token → σ → Prop) (it : σ × Bool) (r : Remaining) : Prop :=
  Over r.tokens it.1 ∧ it.2 = r.ended

/-- So each request is answered as the tokens to come answer it. -/
theorem Follow.answer {steps : Steps σ} {limit : Int} {text : List Char}
    {Over : List Token → σ → Prop} (h : steps.Follow limit text Over) (it : σ × Bool)
    (r : Remaining) (request : Request) (hstands : StandsAt Over it r) :
    (steps.answer it request).1 = (r.answer limit text request).1 ∧
      StandsAt Over (steps.answer it request).2 (r.answer limit text request).2 := by
  obtain ⟨hover, hended⟩ := hstands
  cases request with
  | peek =>
      obtain ⟨s', hpeek, hover'⟩ := h.peek hover
      simp only [Steps.answer, hpeek]
      exact ⟨rfl, hover', hended⟩
  | advance =>
      obtain ⟨s', hadvance, hover'⟩ := h.advance hover
      simp only [Steps.answer, hadvance]
      exact ⟨rfl, hover', hended⟩
  | datum =>
      obtain ⟨s', hdatum, hover'⟩ := h.datum hover
      simp only [Steps.answer, hdatum]
      exact ⟨rfl, hover', hended⟩
  | next =>
      obtain ⟨s, ended⟩ := it
      obtain ⟨tokens, ended'⟩ := r
      obtain rfl : ended = ended' := hended
      cases ended with
      | true => exact ⟨rfl, hover, rfl⟩
      | false =>
          obtain ⟨s', hpeek, hover'⟩ := h.peek hover
          obtain ⟨s'', hdatum, hover''⟩ := h.datum hover'
          cases tokens with
          | nil =>
              simp only [Steps.answer, next, hpeek, List.head?_nil, Bool.false_eq_true, if_false]
              exact ⟨rfl, hover', rfl⟩
          | cons token rest =>
              simp only [Steps.answer, next, Remaining.answer, hpeek, hdatum, List.head?_cons,
                List.isEmpty_cons, Bool.or_self, Bool.false_eq_true, if_false]
              cases (Datum.read limit 0 (token :: rest)).outcome with
              | ok form => exact ⟨rfl, hover'', rfl⟩
              | error refusal => exact ⟨rfl, hover'', rfl⟩
  | forms =>
      obtain ⟨s', hforms, hover'⟩ := h.forms hover
      simp only [Steps.answer, hforms]
      exact ⟨rfl, hover', hended⟩

end Steps

/-! ## Streams -/

/-- A stream over some tokens with no failure behind them, in which nothing is open. -/
structure Over (limit : Int) (text : List Char) (tokens : List Token) (s : TokenStream) :
    Prop where
  limit : s.limit = limit
  source : s.source = text
  pending : s.pending = tokens
  failure : s.failure = none
  depth : s.depth = 0

section

variable {limit : Int} {text : List Char} {tokens : List Token} {s : TokenStream}

theorem Over.peek (h : s.Over limit text tokens) :
    ∃ s', s.peek = (.ok tokens.head?, s') ∧ s'.Over limit text tokens := by
  cases tokens with
  | nil => exact ⟨s, peek_of_pending_nil h.pending h.failure, h⟩
  | cons token rest => exact ⟨_, peek_of_pending_cons h.pending, { h with pending := rfl }⟩

theorem Over.advance (h : s.Over limit text tokens) :
    ∃ s', s.advance = (.ok tokens.head?, s') ∧ s'.Over limit text tokens.tail := by
  obtain ⟨source, limit', lookahead, unread, failure, depth⟩ := s
  obtain ⟨rfl, rfl, hpending, rfl, rfl⟩ := h
  cases lookahead with
  | some token =>
      obtain rfl : token :: unread = tokens := hpending
      exact ⟨_, rfl, rfl, rfl, rfl, rfl, rfl⟩
  | none =>
      obtain rfl : unread = tokens := hpending
      cases unread with
      | nil => exact ⟨_, rfl, rfl, rfl, rfl, rfl, rfl⟩
      | cons token rest => exact ⟨_, rfl, rfl, rfl, rfl, rfl, rfl⟩

theorem Over.datum (h : s.Over limit text tokens) :
    ∃ s', s.datum =
        ((Datum.read limit 0 tokens).outcome.mapError (Refusal.error text), s') ∧
      s'.Over limit text (Datum.read limit 0 tokens).rest := by
  have hdepth := Datum.depth_read limit 0 tokens
  have hread : Datum.read s.limit s.depth s.pending = Datum.read limit 0 tokens := by
    rw [h.limit, h.depth, h.pending]
  cases hreading : Datum.read limit 0 tokens with
  | mk outcome depth rest =>
      rw [hreading] at hdepth hread
      have hover : ({ s with lookahead := none, unread := rest, depth } : TokenStream).Over limit
          text rest := { h with pending := rfl, depth := hdepth }
      cases outcome with
      | ok form => exact ⟨_, datum_of_read hread, hover⟩
      | error refusal =>
          refine ⟨_, ?_, hover⟩
          rw [datum_of_refusal hread]
          simp only [atEnd, h.failure, h.source, ite_self]
          rfl

theorem Over.forms (h : s.Over limit text tokens) :
    s.forms.forms = (sweep limit tokens).forms ∧
      s.forms.failure = (sweep limit tokens).refusal.map (Refusal.error text) ∧
      s.forms.stream.Over limit text (sweep limit tokens).rest := by
  fun_induction sweep limit tokens generalizing s with
  | case1 =>
      obtain ⟨s', hpeek, hover⟩ := h.peek
      rw [forms_eq, hpeek]
      exact ⟨rfl, rfl, hover⟩
  | case2 token rest refusal hrefused =>
      obtain ⟨s', hpeek, hover⟩ := h.peek
      obtain ⟨s'', hdatum, hover'⟩ := hover.datum
      rw [hrefused] at hdatum
      rw [forms_eq]
      simp only [hpeek, hdatum, Except.mapError, List.head?_cons]
      exact ⟨trivial, rfl, hover'⟩
  | case3 token rest form hform ih =>
      obtain ⟨s', hpeek, hover⟩ := h.peek
      obtain ⟨s'', hdatum, hover'⟩ := hover.datum
      obtain ⟨hforms, hfailure, hover''⟩ := ih hover'
      rw [hform] at hdatum
      rw [forms_eq]
      simp only [hpeek, hdatum, Except.mapError, List.head?_cons]
      exact ⟨congrArg (form :: ·) hforms, hfailure, hover''⟩

/-- The steps of a stream. -/
def steps : Steps TokenStream where
  peek := TokenStream.peek
  advance := TokenStream.advance
  datum := TokenStream.datum
  forms s := ((s.forms.forms, s.forms.failure), s.forms.stream)

theorem steps_follow (limit : Int) (text : List Char) :
    steps.Follow limit text fun tokens s => s.Over limit text tokens where
  peek h := h.peek
  advance h := h.advance
  datum h := h.datum
  forms h := by
    obtain ⟨hforms, hfailure, hover⟩ := h.forms
    exact ⟨_, congrArg (·, _) (Prod.ext hforms hfailure), hover⟩

/-- Requests to a stream are answered by its steps. -/
theorem Iteration.answer_eq (it : Iteration) (request : Request) :
    (it.answer request).1 = (steps.answer (it.stream, it.ended) request).1 ∧
      ((it.answer request).2.stream, (it.answer request).2.ended) =
        (steps.answer (it.stream, it.ended) request).2 := by
  cases request with
  | peek | advance | datum | forms => exact ⟨rfl, rfl⟩
  | next =>
      obtain ⟨s, ended⟩ := it
      cases ended with
      | true => exact ⟨rfl, rfl⟩
      | false =>
          simp only [answer, next, Steps.answer, Steps.next, steps, Bool.false_eq_true, if_false]
          rcases s.peek with ⟨_ | _ | token, s'⟩
          · exact ⟨rfl, rfl⟩
          · exact ⟨rfl, rfl⟩
          · dsimp only
            rcases s'.datum with ⟨_ | form, s''⟩ <;> exact ⟨rfl, rfl⟩

end

end TokenStream

/-! ## Requests to a reader that descends -/

namespace Descent

open TokenStream

/-- What is read form by form, and the reader behind it. -/
structure Forms where
  forms : List Form
  refusal : Option Refusal
  descent : Descent

/-- Reads forms as long as there is a token to look at, so many at most. -/
def forms (limit : Int) : Nat → Descent → Forms
  | 0, d => ⟨[], none, d⟩
  | rounds + 1, d =>
    match d.peek with
    | (none, d) => ⟨[], none, d⟩
    | (some _, d) =>
      match d.read limit with
      | (.error refusal, d) => ⟨[], some refusal, d⟩
      | (.ok form, d) =>
        let later := forms limit rounds d
        { later with forms := form :: later.forms }

/-- The steps of a reader that descends. -/
def steps (limit : Int) (text : List Char) : Steps Descent where
  peek d := (.ok d.peek.1, d.peek.2)
  advance d := (.ok d.advance.1, d.advance.2)
  datum d := ((d.read limit).1.mapError (Refusal.error text), (d.read limit).2)
  forms d :=
    let read := d.forms limit d.pending.length
    ((read.forms, read.refusal.map (Refusal.error text)), read.descent)

/-- A reader over some tokens in which nothing is open, with at most one token in its buffer. -/
structure Over (tokens : List Token) (d : Descent) : Prop where
  pending : d.pending = tokens
  depth : d.depth = 0
  buffer : d.buffer.length ≤ 1

section

variable {limit : Int} {text : List Char} {tokens : List Token} {d d' : Descent}

theorem Over.keeps (h : d.Over tokens) (hkeeps : Keeps d d') : d'.Over d'.pending :=
  ⟨rfl, hkeeps.depth.trans h.depth, hkeeps.buffer h.buffer⟩

theorem Over.peek (h : d.Over tokens) :
    ∃ d', d.peek = (tokens.head?, d') ∧ d'.Over tokens := by
  cases tokens with
  | nil => exact ⟨d, peek_of_nil h.pending, h⟩
  | cons token rest =>
      obtain ⟨d', hpeek, hpending, hkeeps⟩ := peek_of_cons h.pending
      exact ⟨d', hpeek, hpending ▸ h.keeps hkeeps⟩

theorem Over.advance (h : d.Over tokens) :
    ∃ d', d.advance = (tokens.head?, d') ∧ d'.Over tokens.tail := by
  cases tokens with
  | nil => exact ⟨d, advance_of_nil h.pending, h⟩
  | cons token rest =>
      obtain ⟨d', hadvance, hpending, hkeeps⟩ := advance_of_cons h.pending
      exact ⟨d', hadvance, hpending ▸ h.keeps hkeeps⟩

theorem Over.read (h : d.Over tokens) (limit : Int) :
    ∃ d', d.read limit = ((Datum.read limit 0 tokens).outcome, d') ∧
      d'.Over (Datum.read limit 0 tokens).rest := by
  obtain ⟨hkeeps, hread⟩ := d.read_agrees limit
  rw [h.depth, h.pending] at hread
  rw [hread]
  exact ⟨_, rfl, h.keeps hkeeps⟩

theorem Over.forms (limit : Int) : ∀ {rounds : Nat} {tokens : List Token} {d : Descent},
    d.Over tokens → tokens.length ≤ rounds →
      (d.forms limit rounds).forms = (sweep limit tokens).forms ∧
        (d.forms limit rounds).refusal = (sweep limit tokens).refusal ∧
        (d.forms limit rounds).descent.Over (sweep limit tokens).rest
  | 0, tokens, d, h, hle => by
      obtain rfl := List.eq_nil_of_length_eq_zero (Nat.le_zero.mp hle)
      rw [sweep, Descent.forms]
      exact ⟨rfl, rfl, h⟩
  | rounds + 1, [], d, h, hle => by
      obtain ⟨d', hpeek, hover⟩ := h.peek
      rw [sweep, Descent.forms, hpeek]
      exact ⟨rfl, rfl, hover⟩
  | rounds + 1, token :: rest, d, h, hle => by
      obtain ⟨d', hpeek, hover⟩ := h.peek
      obtain ⟨d'', hread, hover'⟩ := hover.read limit
      have hless := Datum.length_rest_lt limit 0 token rest
      rw [sweep, Descent.forms, hpeek]
      simp only [List.head?_cons, hread]
      cases (Datum.read limit 0 (token :: rest)).outcome with
      | error refusal => exact ⟨rfl, rfl, hover'⟩
      | ok form =>
          have hrounds := Nat.le_of_lt_succ (Nat.lt_of_lt_of_le hless hle)
          obtain ⟨hforms, hrefusal, hover''⟩ := Over.forms limit hover' hrounds
          exact ⟨congrArg (form :: ·) hforms, hrefusal, hover''⟩

theorem steps_follow (limit : Int) (text : List Char) :
    (steps limit text).Follow limit text Over where
  peek {tokens d} h := by
    obtain ⟨d', hpeek, hover⟩ := h.peek
    refine ⟨d', ?_, hover⟩
    show (Except.ok d.peek.1, d.peek.2) = _
    rw [hpeek]
  advance {tokens d} h := by
    obtain ⟨d', hadvance, hover⟩ := h.advance
    refine ⟨d', ?_, hover⟩
    show (Except.ok d.advance.1, d.advance.2) = _
    rw [hadvance]
  datum {tokens d} h := by
    obtain ⟨d', hread, hover⟩ := h.read limit
    refine ⟨d', ?_, hover⟩
    show ((d.read limit).1.mapError (Refusal.error text), (d.read limit).2) = _
    rw [hread]
  forms {tokens d} h := by
    have hrounds : tokens.length ≤ d.pending.length :=
      Nat.le_of_eq (congrArg List.length h.pending.symm)
    obtain ⟨hforms, hrefusal, hover⟩ := h.forms limit hrounds
    refine ⟨_, ?_, hover⟩
    rw [← hforms, ← hrefusal]
    rfl

end

end Descent

/-! ## All requests -/

namespace TokenStream

theorem Remaining.suffix_answerAll (limit : Int) (text : List Char) :
    ∀ (requests : List Request) (r : Remaining),
      (answerAll (answer limit text) r requests).2.tokens <:+ r.tokens
  | [], _ => List.suffix_refl _
  | request :: rest, r =>
    (suffix_answerAll limit text rest _).trans (r.accounts limit text request).suffix

/-- To look at a token does nothing to the tokens to come. -/
theorem Remaining.answerAll_without_peek (limit : Int) (text : List Char) :
    ∀ (requests : List Request) (r : Remaining),
      (answerAll (answer limit text) r requests).1.filter (·.1 ≠ .peek) =
        (answerAll (answer limit text) r (requests.filter (· ≠ .peek))).1
  | [], _ => rfl
  | request :: rest, r => by
      have hrest := answerAll_without_peek limit text rest (r.answer limit text request).2
      cases request with
      | peek =>
          have hsame : (r.answer limit text .peek).2 = r := rfl
          rw [hsame] at hrest
          simpa [answerAll, hsame] using hrest
      | advance | datum | next | forms => simpa [answerAll] using hrest

/-- An iteration through a stream stands where the tokens to come say. -/
def Iteration.StandsAt (limit : Int) (text : List Char) (it : Iteration) (r : Remaining) : Prop :=
  Steps.StandsAt (fun tokens s => s.Over limit text tokens) (it.stream, it.ended) r

theorem Iteration.answer_of_remaining (limit : Int) (text : List Char) (it : Iteration)
    (r : Remaining) (request : Request) (h : it.StandsAt limit text r) :
    (it.answer request).1 = (r.answer limit text request).1 ∧
      (it.answer request).2.StandsAt limit text (r.answer limit text request).2 := by
  obtain ⟨hanswer, hstate⟩ := it.answer_eq request
  obtain ⟨hsame, hstands⟩ := (steps_follow limit text).answer (it.stream, it.ended) r request h
  rw [← hstate] at hstands
  exact ⟨hanswer.trans hsame, hstands⟩

end TokenStream

open TokenStream in
/-- **Requests.** A source is lexed without a failure, and a stream over its tokens is asked for
tokens and data in any order, whether or not that fails. Then at any time the tokens to come are the
last ones of the source, and nothing is open. Every further request is answered from these tokens: a
form takes those of its datum and no others, and what fails takes some in front. The answers to the
other requests are the same without the requests to look at a token. A reader that descends gives
the same answers and leaves the same tokens; it has nothing open either, and never more than one
token in its buffer. -/
theorem requests_to_stream {source : List Char} (h : (lex source).failure = none)
    (text : List Char) (limit : Int) (requests : List Request) :
    let start := Iteration.mk (.ofLexed (lex source) text limit) false
    let run := answerAll Iteration.answer start requests
    let it := run.2
    let descent := answerAll (Descent.steps limit text).answer
      (.ofTokens (lex source).tokens, false) requests
    it.stream.pending <:+ (lex source).tokens ∧ it.stream.depth = 0 ∧
      (∀ request, (it.answer request).1.Accounts limit it.stream.pending
        (it.answer request).2.stream.pending request) ∧
      run.1.filter (·.1 ≠ .peek) =
        (answerAll Iteration.answer start (requests.filter (· ≠ .peek))).1 ∧
      descent.1 = run.1 ∧ descent.2.1.pending = it.stream.pending ∧ descent.2.1.depth = 0 ∧
        descent.2.1.buffer.length ≤ 1 := by
  intro start run it descent
  let tokens := Remaining.mk (lex source).tokens false
  have hstart : start.StandsAt limit text tokens := ⟨⟨rfl, rfl, rfl, h, rfl⟩, rfl⟩
  have hrun (requests : List Request) :=
    answerAll_of_step (Iteration.answer_of_remaining limit text) requests hstart
  have hdescent : Steps.StandsAt Descent.Over (.ofTokens (lex source).tokens, false) tokens :=
    ⟨⟨rfl, rfl, Nat.zero_le 1⟩, rfl⟩
  obtain ⟨hanswers, hstands⟩ := hrun requests
  obtain ⟨hanswers', hstands'⟩ :=
    answerAll_of_step (Descent.steps_follow limit text).answer requests hdescent
  have hpending := hstands.1.pending
  refine ⟨?_, hstands.1.depth, fun request => ?_, ?_, ?_, ?_, hstands'.1.depth, hstands'.1.buffer⟩
  · rw [hpending]
    exact Remaining.suffix_answerAll limit text requests tokens
  · obtain ⟨hanswer, hnext⟩ := Iteration.answer_of_remaining limit text it _ request hstands
    rw [hanswer, hpending, hnext.1.pending]
    exact Remaining.accounts ..
  · rw [hanswers, (hrun _).1]
    exact Remaining.answerAll_without_peek limit text requests tokens
  · exact hanswers'.trans hanswers.symm
  · exact hstands'.1.pending.trans hpending.symm

open TokenStream in
/-- The parenthesis behind the dot has been looked at when the list fails, and is not lost. -/
theorem requests_behind_fault :
    let source := "( . ) b".toList
    let requests : List Request := [.peek, .datum]
    let it := (answerAll Iteration.answer ⟨.ofLexed (lex source) source 4, false⟩ requests).2
    let descent := (answerAll (Descent.steps 4 source).answer
      (.ofTokens (lex source).tokens, false) requests).2.1
    (lex source).failure = none ∧
      it.stream.pending = [⟨.rparen, ")", 4⟩, ⟨.symbol, "b", 6⟩] ∧
      it.stream.pending <:+ (lex source).tokens ∧
      descent.buffer = [⟨.rparen, ")", 4⟩] ∧ descent.pending = it.stream.pending := by
  intro source requests it descent
  have hlexed : (lex source).failure = none := by decide +kernel
  have hpending : it.stream.pending = [⟨.rparen, ")", 4⟩, ⟨.symbol, "b", 6⟩] := by decide +kernel
  have hbuffer : descent.buffer = [⟨.rparen, ")", 4⟩] := by decide +kernel
  obtain ⟨hsuffix, -, -, -, -, hsame, -, -⟩ := requests_to_stream hlexed source 4 requests
  exact ⟨hlexed, hpending, hsuffix, hbuffer, hsame⟩

end TableLisp

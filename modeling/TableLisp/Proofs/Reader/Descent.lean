import TableLisp.Proofs.Reader.Nesting

/-!
# Reading by descent

The grammar of data suggests a reader that calls itself. `Descent.datum` takes a token, and behind a
quote mark or a parenthesis it reads on one level deeper, which it leaves again however that ends;
`Descent.items` reads the rest of a list. Where such a reader must know the next token before it can
go on, it looks at it first: the token then waits in a buffer until it is taken.

`Datum.read` keeps the open constructs on a stack instead, and needs no buffer. Both come to the
same form or refusal and leave the same tokens (`Descent.read_agrees`): what the stack holds is what
the calls still have to do, so each call does what the stack reader does until its construct is
complete (`Descent.Agrees`). Along the way there is never more than one token in the buffer.
-/

namespace TableLisp

open Datum

/-- A reader that descends: the tokens that it has looked at, those behind them, and how many
constructs are open. -/
structure Descent where
  buffer : List Token
  unread : List Token
  depth : Nat

namespace Descent

/-- A reader in front of some tokens. -/
def ofTokens (tokens : List Token) : Descent :=
  { buffer := [], unread := tokens, depth := 0 }

/-- The tokens still to come. -/
def pending (d : Descent) : List Token :=
  d.buffer ++ d.unread

/-- Looks at the next token. If the buffer is empty, one more token is put into it. -/
def peek (d : Descent) : Option Token × Descent :=
  match d.buffer, d.unread with
  | [], token :: rest => (some token, { d with buffer := d.buffer ++ [token], unread := rest })
  | _, _ => (d.buffer.head?, d)

/-- Takes the next token, from the buffer if there is one. -/
def advance (d : Descent) : Option Token × Descent :=
  match d.buffer, d.unread with
  | token :: buffer, _ => (some token, { d with buffer })
  | [], token :: rest => (some token, { d with unread := rest })
  | [], [] => (none, d)

/-! ## Calls -/

/-- What a call comes to. -/
abbrev Result := Except Refusal Form × Descent

/-- Makes another form of the one that a call comes to. -/
def Result.map (f : Form → Form) (result : Result) : Result :=
  (result.1.map f, result.2)

/-- Goes on with the form that a call comes to, if it comes to one. -/
def Result.andThen (result : Result) (next : Form → Descent → Result) : Result :=
  match result with
  | (.error refusal, d) => (.error refusal, d)
  | (.ok form, d) => next form d

/-- Reads on one level deeper, if the limit allows it. -/
def nested (limit : Int) (offset : Nat) (read : Descent → Result) (d : Descent) : Result :=
  if limit ≤ d.depth then (.error ⟨.tooDeep, some offset, false⟩, d)
  else
    let (outcome, d) := read { d with depth := d.depth + 1 }
    (outcome, { d with depth := d.depth - 1 })

/-- Reads what a quote mark is in front of. -/
def quoted (limit : Int) (offset : Nat) (read : Descent → Result) (d : Descent) : Result :=
  match d.peek with
  | (none, d) => (.error ⟨.nothingAfterQuote, some offset, true⟩, d)
  | (some _, d) => (nested limit offset read d).map .quoted

/-- Takes the parenthesis behind the tail of a list. -/
def closing (form : Form) (d : Descent) : Result :=
  match d.advance with
  | (none, d) => (.error ⟨.tailNotClosed, none, true⟩, d)
  | (some token, d) =>
    if token.kind = .rparen then (.ok form, d)
    else (.error ⟨.tailNotClosed, some token.offset, false⟩, d)

/-- Reads the tail of a list behind its dot, and the parenthesis. -/
def tail (dot : Nat) (done : List Form) (read : Descent → Result) (d : Descent) : Result :=
  match d.peek with
  | (none, d) => (.error ⟨.nothingAfterDot, some dot, true⟩, d)
  | (some token, d) =>
    if token.kind = .rparen then (.error ⟨.nothingAfterDot, some dot, false⟩, d)
    else (read d).andThen fun form d => closing (dottedForm done form) d

mutual

/-- Reads one datum in so many calls at most. -/
def datum (limit : Int) : Nat → Descent → Result
  | 0, d => (.error ⟨.nothingToRead, none, true⟩, d)
  | calls + 1, d =>
    match d.advance with
    | (none, d) => (.error ⟨.nothingToRead, none, true⟩, d)
    | (some token, d) =>
      match token.kind with
      | .number => (.ok (.const (.int token.integer)), d)
      | .symbol => (.ok (.sym token.text), d)
      | .string => (.ok (.const (.str token.content)), d)
      | .quote => quoted limit token.offset (datum limit calls) d
      | .lparen => nested limit token.offset (items limit calls token.offset []) d
      | .rparen => (.error ⟨.unmatchedClose, some token.offset, false⟩, d)
      | .dot => (.error ⟨.strayDot, some token.offset, false⟩, d)

/-- Reads the rest of a list. The items that it has are held in reverse. -/
def items (limit : Int) : Nat → Nat → List Form → Descent → Result
  | 0, _, _, d => (.error ⟨.nothingToRead, none, true⟩, d)
  | calls + 1, offset, done, d =>
    match d.peek with
    | (none, d) => (.error ⟨.unmatchedOpen, some offset, true⟩, d)
    | (some token, d) =>
      match token.kind with
      | .rparen => (.ok (listForm done), d.advance.2)
      | .dot => tail token.offset done (datum limit calls) d.advance.2
      | _ => (datum limit calls d).andThen fun form d => items limit calls offset (form :: done) d

end

/-- Reads one datum. Each token needs no more than two calls, one for itself and one for the list
that it is an item of. -/
def read (limit : Int) (d : Descent) : Result :=
  datum limit (2 * d.pending.length + 1) d

/-! ## Looking and taking -/

/-- A step leaves the depth as it was, and has no more than one token in the buffer if there was no
more than one before. -/
structure Keeps (d d' : Descent) : Prop where
  depth : d'.depth = d.depth
  buffer : d.buffer.length ≤ 1 → d'.buffer.length ≤ 1

theorem Keeps.refl (d : Descent) : Keeps d d :=
  ⟨rfl, id⟩

theorem Keeps.trans {d d' d'' : Descent} (h : Keeps d d') (h' : Keeps d' d'') : Keeps d d'' :=
  ⟨h'.depth.trans h.depth, h'.buffer ∘ h.buffer⟩

theorem peek_of_nil {d : Descent} (h : d.pending = []) : d.peek = (none, d) := by
  obtain ⟨hbuffer, hunread⟩ := List.append_eq_nil_iff.mp h
  simp [peek, hbuffer, hunread]

theorem peek_of_cons {d : Descent} {token : Token} {rest : List Token}
    (h : d.pending = token :: rest) :
    ∃ d', d.peek = (some token, d') ∧ d'.pending = token :: rest ∧ Keeps d d' := by
  obtain ⟨buffer, unread, depth⟩ := d
  cases buffer with
  | nil =>
      obtain rfl : unread = token :: rest := h
      exact ⟨⟨[token], rest, depth⟩, rfl, rfl, rfl, fun _ => Nat.le_refl 1⟩
  | cons next buffer =>
      obtain ⟨rfl, -⟩ : next = token ∧ buffer ++ unread = rest := List.cons.inj h
      exact ⟨_, rfl, h, .refl _⟩

theorem advance_of_nil {d : Descent} (h : d.pending = []) : d.advance = (none, d) := by
  obtain ⟨hbuffer, hunread⟩ := List.append_eq_nil_iff.mp h
  simp [advance, hbuffer, hunread]

theorem advance_of_cons {d : Descent} {token : Token} {rest : List Token}
    (h : d.pending = token :: rest) :
    ∃ d', d.advance = (some token, d') ∧ d'.pending = rest ∧ Keeps d d' := by
  obtain ⟨buffer, unread, depth⟩ := d
  cases buffer with
  | nil =>
      obtain rfl : unread = token :: rest := h
      exact ⟨⟨[], rest, depth⟩, rfl, rfl, rfl, fun _ => Nat.zero_le 1⟩
  | cons next buffer =>
      obtain ⟨rfl, rfl⟩ : next = token ∧ buffer ++ unread = rest := List.cons.inj h
      exact ⟨⟨buffer, unread, depth⟩, rfl, rfl, rfl, fun hle => Nat.le_of_succ_le hle⟩

/-! ## Calls and the stack -/

/-- A call does what the stack reader does from some progress on. If it comes to a form, the stack
reader goes on with that form behind the same tokens, of which there are fewer. If it refuses, so
does the stack reader, which gives up as many constructs as are open. -/
structure Agrees (limit : Int) (progress : Progress) (goesOn : Form → Progress) (opened : Nat)
    (d : Descent) (result : Result) : Prop where
  keeps : Keeps d result.2
  comes : match result.1 with
    | .ok form => result.2.pending.length < d.pending.length ∧
      readOn limit progress d.pending = readOn limit (goesOn form) result.2.pending
    | .error refusal =>
      readOn limit progress d.pending = ⟨.error refusal, d.depth - opened, result.2.pending⟩

/-- The tokens are left to a call for a datum: they do not end the innermost open construct. -/
def Expects : List Opening → List Token → Prop
  | [], _ => True
  | _ :: _, [] => False
  | .quote _ :: _, _ :: _ => True
  | .list .. :: _, token :: _ => token.kind ≠ .rparen ∧ token.kind ≠ .dot
  | .tail .. :: _, token :: _ => token.kind ≠ .rparen

namespace Expects

variable {stack : List Opening} {token : Token} {rest : List Token}

theorem of_quote {offset : Nat} {tokens : List Token} (h : tokens ≠ []) :
    Expects (.quote offset :: stack) tokens := by
  cases tokens with
  | nil => exact absurd rfl h
  | cons token rest => trivial

theorem eq_nil (h : Expects stack []) : stack = [] := by
  cases stack with
  | nil => rfl
  | cons opening stack => exact (h : False).elim

theorem endsAfterDot (h : Expects stack (token :: rest)) :
    Datum.endsAfterDot stack token = none := by
  rcases stack with _ | ⟨_ | _ | _, stack⟩
  all_goals unfold Datum.endsAfterDot
  · rfl
  · rfl
  · rfl
  · split
    · exact absurd ‹token.kind = .rparen› h
    · rfl

theorem shift_rparen (h : Expects stack (token :: rest)) (hk : token.kind = .rparen) {limit : Int}
    {depth : Nat} {last : Bool} :
    shift limit stack depth token last = refuse .unmatchedClose token.offset stack depth := by
  rcases stack with _ | ⟨_ | _ | _, stack⟩
  · simp only [shift, hk]
  · simp only [shift, hk]
  · exact absurd hk h.1
  · exact absurd hk h

theorem shift_dot (h : Expects stack (token :: rest)) (hk : token.kind = .dot) {limit : Int}
    {depth : Nat} {last : Bool} :
    shift limit stack depth token last = refuse .strayDot token.offset stack depth := by
  rcases stack with _ | ⟨_ | _ | _, stack⟩
  · simp only [shift, hk]
  · simp only [shift, hk]
  · exact absurd hk h.2
  · simp only [shift, hk]

end Expects

namespace Agrees

variable {limit : Int} {progress progress' : Progress} {goesOn goesOn' : Form → Progress}
  {opened : Nat} {d d' : Descent} {result : Result}

theorem of_ok {form : Form} (hkeeps : Keeps d d') (hlt : d'.pending.length < d.pending.length)
    (hstep : readOn limit progress d.pending = readOn limit (goesOn form) d'.pending) :
    Agrees limit progress goesOn opened d (.ok form, d') :=
  ⟨hkeeps, hlt, hstep⟩

theorem of_refusal {refusal : Refusal} (hkeeps : Keeps d d')
    (hstep : readOn limit progress d.pending =
      ⟨.error refusal, d.depth - opened, d'.pending⟩) :
    Agrees limit progress goesOn opened d (.error refusal, d') :=
  ⟨hkeeps, hstep⟩

/-- In front of a call, tokens may be taken or looked at. -/
theorem behind (h : Agrees limit progress goesOn opened d' result) (hkeeps : Keeps d d')
    (hle : d'.pending.length ≤ d.pending.length)
    (hstep : readOn limit progress' d.pending = readOn limit progress d'.pending) :
    Agrees limit progress' goesOn opened d result := by
  obtain ⟨outcome, d''⟩ := result
  refine ⟨hkeeps.trans h.keeps, ?_⟩
  have hcomes := h.comes
  rw [hkeeps.depth] at hcomes
  rw [hstep]
  cases outcome with
  | ok form => exact ⟨Nat.lt_of_lt_of_le hcomes.1 hle, hcomes.2⟩
  | error refusal => exact hcomes

theorem looked (h : Agrees limit progress goesOn opened d' result) (hkeeps : Keeps d d')
    (hsame : d'.pending = d.pending) : Agrees limit progress goesOn opened d result :=
  h.behind hkeeps (Nat.le_of_eq (congrArg List.length hsame)) (by rw [hsame])

theorem map {f : Form → Form}
    (h : Agrees limit progress (fun form => goesOn (f form)) opened d result) :
    Agrees limit progress goesOn opened d (result.map f) := by
  obtain ⟨outcome, d'⟩ := result
  cases outcome with
  | ok form => exact ⟨h.keeps, h.comes⟩
  | error refusal => exact ⟨h.keeps, h.comes⟩

/-- A call is followed by another one, which starts where the first one has come to. -/
theorem andThen {next : Form → Descent → Result}
    (h : Agrees limit progress goesOn opened d result)
    (hnext : ∀ form d', d'.depth = d.depth → d'.pending.length < d.pending.length →
      Agrees limit (goesOn form) goesOn' opened d' (next form d')) :
    Agrees limit progress goesOn' opened d (result.andThen next) := by
  obtain ⟨outcome, d'⟩ := result
  cases outcome with
  | ok form =>
      obtain ⟨hlt, hstep⟩ := h.comes
      exact (hnext form d' h.keeps.depth hlt).behind h.keeps (Nat.le_of_lt hlt) hstep
  | error refusal => exact ⟨h.keeps, h.comes⟩

end Agrees

section

variable {limit : Int} {offset : Nat} {stack : List Opening} {goesOn : Form → Progress}
  {call : Descent → Result} {d : Descent}

/-- One level deeper is one construct more on the stack. -/
theorem nested_agrees {opening : Opening}
    (h : Agrees limit (.reading (opening :: stack) (d.depth + 1)) goesOn (stack.length + 1)
      { d with depth := d.depth + 1 } (call { d with depth := d.depth + 1 })) :
    Agrees limit (descend limit opening offset stack d.depth) goesOn stack.length d
      (nested limit offset call d) := by
  unfold nested descend
  split
  · exact .of_refusal (.refl d) (by rw [refuse, readOn])
  · obtain ⟨hkeeps, hcomes⟩ := h
    generalize call { d with depth := d.depth + 1 } = result at hkeeps hcomes
    obtain ⟨outcome, d'⟩ := result
    refine ⟨⟨?_, hkeeps.buffer⟩, ?_⟩
    · exact Nat.sub_eq_of_eq_add hkeeps.depth
    · cases outcome with
      | ok form => exact hcomes
      | error refusal =>
          simp only [Nat.add_sub_add_right] at hcomes
          exact hcomes

theorem closing_agrees (form : Form) :
    Agrees limit (.closing form stack d.depth) (fun form => deliver form stack (d.depth - 1))
      (stack.length + 1) d (closing form d) := by
  unfold closing
  cases hpending : d.pending with
  | nil =>
      rw [advance_of_nil hpending]
      exact .of_refusal (.refl d) (by rw [hpending, readOn])
  | cons token rest =>
      obtain ⟨d', hadvance, hpending', hkeeps⟩ := advance_of_cons hpending
      rw [hadvance]
      dsimp only
      split
      · next hk =>
          refine .of_ok hkeeps ?_ (by rw [hpending, hpending', readOn_close limit form _ _ hk])
          rw [hpending, hpending']
          exact Nat.lt_succ_self _
      · next hk =>
          refine .of_refusal hkeeps ?_
          rw [hpending, hpending', readOn, close, if_neg hk, readOn]

theorem tail_agrees {dot : Nat} {done : List Form}
    (h : ∀ d' : Descent, d'.pending = d.pending → Expects (.tail dot done :: stack) d'.pending →
      Agrees limit (.reading (.tail dot done :: stack) d'.depth)
        (fun form => .closing (dottedForm done form) stack d'.depth) (stack.length + 1) d'
        (call d')) :
    Agrees limit (.reading (.tail dot done :: stack) d.depth)
      (fun form => deliver form stack (d.depth - 1)) (stack.length + 1) d
      (tail dot done call d) := by
  unfold tail
  cases hpending : d.pending with
  | nil =>
      rw [peek_of_nil hpending]
      exact .of_refusal (.refl d) (by rw [hpending, readOn]; rfl)
  | cons token rest =>
      obtain ⟨d', hpeek, hpending', hkeeps⟩ := peek_of_cons hpending
      have hsame : d'.pending = d.pending := hpending'.trans hpending.symm
      rw [hpeek, ← hkeeps.depth]
      dsimp only
      split
      · next hk =>
          refine .of_refusal hkeeps ?_
          rw [hpending, hpending', ← hkeeps.depth]
          simp [readOn, endsAfterDot, hk]
      · next hk =>
          have hexpects : Expects (.tail dot done :: stack) d'.pending := hpending' ▸ hk
          refine Agrees.looked (Agrees.andThen (h d' hsame hexpects) ?_) hkeeps hsame
          intro form d'' hdepth _
          rw [← hdepth]
          exact closing_agrees (dottedForm done form)

theorem quoted_agrees {token : Token} (hk : token.kind = .quote)
    (h : ∀ d' : Descent, d'.pending = d.pending → d.pending ≠ [] →
      Agrees limit (.reading (.quote token.offset :: stack) d'.depth)
        (fun form => deliver form (.quote token.offset :: stack) d'.depth) (stack.length + 1) d'
        (call d')) :
    Agrees limit (shift limit stack d.depth token d.pending.isEmpty)
      (fun form => deliver form stack d.depth) stack.length d
      (quoted limit token.offset call d) := by
  unfold quoted
  cases hpending : d.pending with
  | nil =>
      rw [peek_of_nil hpending]
      refine .of_refusal (.refl d) ?_
      simp only [shift, hk, hpending, List.isEmpty_nil, if_true, readOn, missing,
        List.length_cons, Nat.add_sub_add_right]
  | cons next rest =>
      obtain ⟨d', hpeek, hpending', hkeeps⟩ := peek_of_cons hpending
      have hsame : d'.pending = d.pending := hpending'.trans hpending.symm
      have hne : d.pending ≠ [] := hpending ▸ List.cons_ne_nil next rest
      simp only [hpeek, shift, hk, List.isEmpty_cons, Bool.false_eq_true, if_false,
        ← hkeeps.depth]
      exact .looked (.map (nested_agrees (h { d' with depth := d'.depth + 1 } hsame hne))) hkeeps
        hsame

end

mutual

theorem datum_agrees {limit : Int} {stack : List Opening} : ∀ {calls : Nat} {d : Descent},
    2 * d.pending.length + 1 ≤ calls → Expects stack d.pending →
      Agrees limit (.reading stack d.depth) (fun form => deliver form stack d.depth) stack.length d
        (datum limit calls d)
  | 0, d, hcalls, _ => absurd hcalls (Nat.not_succ_le_zero _)
  | calls + 1, d, hcalls, hexpects => by
      rw [datum]
      cases hpending : d.pending with
      | nil =>
          rw [hpending] at hexpects
          obtain rfl := hexpects.eq_nil
          rw [advance_of_nil hpending]
          exact .of_refusal (.refl d) (by rw [hpending, readOn]; rfl)
      | cons token rest =>
          obtain ⟨d', hadvance, hpending', hkeeps⟩ := advance_of_cons hpending
          rw [hpending] at hexpects
          have hless : d'.pending.length < d.pending.length := by
            rw [hpending, hpending']
            exact Nat.lt_succ_self _
          have hstep : readOn limit (.reading stack d'.depth) d.pending =
              readOn limit (shift limit stack d'.depth token d'.pending.isEmpty) d'.pending := by
            rw [hpending, hpending', readOn, hexpects.endsAfterDot]
          rw [hadvance, ← hkeeps.depth]
          dsimp only
          split
          · next hk => exact .of_ok hkeeps hless (by rw [hstep]; simp only [shift, hk])
          · next hk => exact .of_ok hkeeps hless (by rw [hstep]; simp only [shift, hk])
          · next hk => exact .of_ok hkeeps hless (by rw [hstep]; simp only [shift, hk])
          · next hk =>
              refine Agrees.behind (quoted_agrees hk fun d₀ heq hne => ?_) hkeeps
                (Nat.le_of_lt hless) hstep
              exact datum_agrees (by rw [heq]; omega) (.of_quote (heq ▸ hne))
          · next hk =>
              have hopen : shift limit stack d'.depth token d'.pending.isEmpty =
                  descend limit (.list token.offset []) token.offset stack d'.depth := by
                simp only [shift, hk]
              have hroom : 2 * ({ d' with depth := d'.depth + 1 } : Descent).pending.length + 2 ≤
                  calls := by
                show 2 * d'.pending.length + 2 ≤ calls
                omega
              rw [hopen] at hstep
              exact Agrees.behind (nested_agrees (items_agrees hroom)) hkeeps
                (Nat.le_of_lt hless) hstep
          · next hk =>
              refine .of_refusal hkeeps ?_
              rw [hstep, hexpects.shift_rparen hk, refuse, readOn, hkeeps.depth]
          · next hk =>
              refine .of_refusal hkeeps ?_
              rw [hstep, hexpects.shift_dot hk, refuse, readOn, hkeeps.depth]

theorem items_agrees {limit : Int} {stack : List Opening} {offset : Nat} : ∀ {calls : Nat}
    {done : List Form} {d : Descent}, 2 * d.pending.length + 2 ≤ calls →
      Agrees limit (.reading (.list offset done :: stack) d.depth)
        (fun form => deliver form stack (d.depth - 1)) (stack.length + 1) d
        (items limit calls offset done d)
  | 0, _, d, hcalls => absurd hcalls (Nat.not_succ_le_zero _)
  | calls + 1, done, d, hcalls => by
      rw [items]
      cases hpending : d.pending with
      | nil =>
          rw [peek_of_nil hpending]
          exact .of_refusal (.refl d) (by rw [hpending, readOn]; rfl)
      | cons token rest =>
          obtain ⟨d', hpeek, hpending', hkeeps⟩ := peek_of_cons hpending
          obtain ⟨d'', hadvance, hpending'', hkeeps'⟩ := advance_of_cons hpending'
          have hsame : d'.pending = d.pending := hpending'.trans hpending.symm
          have hless : d''.pending.length < d'.pending.length := by
            rw [hpending', hpending'']
            exact Nat.lt_succ_self _
          rw [hpeek, ← hkeeps.depth]
          refine Agrees.looked ?_ hkeeps hsame
          rw [← hsame] at hcalls
          dsimp only
          split
          · next hk =>
              rw [hadvance]
              refine .of_ok hkeeps' hless ?_
              rw [hpending', hpending'', readOn_rparen limit offset done stack _ hk]
          · next hk =>
              rw [hadvance, ← hkeeps'.depth]
              refine Agrees.behind (tail_agrees fun d₀ heq hexpects => ?_) hkeeps'
                (Nat.le_of_lt hless) ?_
              · exact datum_agrees (by rw [heq]; omega) hexpects
              · rw [hpending', hpending'', readOn_dot limit offset done stack _ hk]
          · next hrparen hdot =>
              have hexpects : Expects (.list offset done :: stack) d'.pending :=
                hpending' ▸ ⟨hrparen, hdot⟩
              refine Agrees.andThen (datum_agrees (by omega) hexpects) ?_
              intro form d₀ hdepth hlt
              rw [← hdepth]
              exact items_agrees (by omega)

end

/-- A reader that descends comes to what the stack reader comes to, and leaves the same tokens at
the same depth. -/
theorem read_agrees (limit : Int) (d : Descent) :
    Keeps d (d.read limit).2 ∧
      Datum.read limit d.depth d.pending =
        ⟨(d.read limit).1, (d.read limit).2.depth, (d.read limit).2.pending⟩ := by
  obtain ⟨hkeeps, hcomes⟩ : Agrees limit (.reading [] d.depth) _ _ d (d.read limit) :=
    datum_agrees (Nat.le_refl _) trivial
  refine ⟨hkeeps, ?_⟩
  rw [hkeeps.depth]
  cases houtcome : (d.read limit).1 with
  | ok form =>
      rw [houtcome] at hcomes
      rw [Datum.read, hcomes.2, deliver, readOn]
  | error refusal =>
      rw [houtcome] at hcomes
      exact hcomes

end Descent

end TableLisp

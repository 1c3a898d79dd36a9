import TableLisp.Proofs.Reader.Joining
import TableLisp.Proofs.Reader.Limit

/-!
# Reading tokens at other places

The reader looks at the kinds and the texts of tokens. It carries their offsets along only to say
where a fault is. So if the tokens are moved, a reading goes the same way, and nothing changes but
the offset in its refusal, which is moved as well (`Datum.read_move`). That such an offset is one of
a token needs no look at the reader: an offset that belongs to no token could be moved alone, and
the reading would not follow (`Datum.offset_of_refusal`).

`Datum.readAll` reads all forms off a list of tokens and knows nothing of their source. A source is
read as its tokens are, but for a lexing failure, which shows at their end (`parse_eq_settle`).

Behind data the reader goes on as if they were not there (`Datum.readAll_behind`). Hence the second
of two texts is read behind the first as it is by itself, and refused with its own error moved on
(`parse_behind`), so a source of two texts is read exactly if both are (`parse_joined`).
-/

namespace TableLisp

namespace Datum

/-! ## Moving along -/

def Opening.move (place : Nat → Nat) : Opening → Opening
  | .quote offset => .quote (place offset)
  | .list offset items => .list (place offset) items
  | .tail dot items => .tail (place dot) items

def Refusal.move (place : Nat → Nat) (refusal : Refusal) : Refusal :=
  { refusal with offset := refusal.offset.map place }

def Progress.move (place : Nat → Nat) : Progress → Progress
  | .finished form depth => .finished form depth
  | .reading stack depth => .reading (stack.map (Opening.move place)) depth
  | .closing form stack depth => .closing form (stack.map (Opening.move place)) depth
  | .refused refusal depth => .refused (refusal.move place) depth

def Reading.move (place : Nat → Nat) (reading : Reading) : Reading where
  outcome := reading.outcome.mapError (Refusal.move place)
  depth := reading.depth
  rest := reading.rest.map (Token.move place)

/-! ## One token -/

variable (place : Nat → Nat)

theorem deliver_move (form : Form) (stack : List Opening) (depth : Nat) :
    deliver form (stack.map (Opening.move place)) depth =
      (deliver form stack depth).move place := by
  fun_induction deliver form stack depth with
  | case1 => rfl
  | case2 form offset stack depth ih => exact ih
  | case3 => rfl
  | case4 => rfl

theorem refuse_move (fault : Fault) (offset : Nat) (stack : List Opening) (depth : Nat) :
    refuse fault (place offset) (stack.map (Opening.move place)) depth =
      (refuse fault offset stack depth).move place := by
  simp only [refuse, List.length_map]
  rfl

theorem descend_move (limit : Int) (opening : Opening) (offset : Nat) (stack : List Opening)
    (depth : Nat) :
    descend limit (opening.move place) (place offset) (stack.map (Opening.move place)) depth =
      (descend limit opening offset stack depth).move place := by
  unfold descend
  split
  · exact refuse_move place ..
  · rfl

theorem shift_move (limit : Int) (stack : List Opening) (depth : Nat) (token : Token)
    (last : Bool) :
    shift limit (stack.map (Opening.move place)) depth (token.move place) last =
      (shift limit stack depth token last).move place := by
  have hkind : (token.move place).kind = token.kind := rfl
  unfold shift
  rw [hkind]
  cases token.kind with
  | number | symbol | string => exact deliver_move place ..
  | quote =>
      cases last with
      | true => rfl
      | false => exact descend_move place limit (.quote token.offset) ..
  | lparen => exact descend_move place limit (.list token.offset []) ..
  | rparen =>
      rcases stack with _ | ⟨_ | ⟨offset, items⟩ | _, stack⟩
      · exact refuse_move place ..
      · exact refuse_move place ..
      · exact deliver_move place ..
      · exact refuse_move place ..
  | dot =>
      rcases stack with _ | ⟨_ | ⟨offset, items⟩ | _, stack⟩
      · exact refuse_move place ..
      · exact refuse_move place ..
      · rfl
      · exact refuse_move place ..

theorem close_move (form : Form) (stack : List Opening) (depth : Nat) (token : Token) :
    close form (stack.map (Opening.move place)) depth (token.move place) =
      (close form stack depth token).move place := by
  have hkind : (token.move place).kind = token.kind := rfl
  unfold close
  rw [hkind]
  split
  · exact deliver_move place ..
  · rw [List.length_map]
    rfl

theorem missing_move (stack : List Opening) :
    missing (stack.map (Opening.move place)) = (missing stack).move place := by
  rcases stack with _ | ⟨_ | _ | _, stack⟩ <;> rfl

theorem endsAfterDot_move (stack : List Opening) (token : Token) :
    endsAfterDot (stack.map (Opening.move place)) (token.move place) =
      (endsAfterDot stack token).map place := by
  have hkind : (token.move place).kind = token.kind := rfl
  unfold endsAfterDot
  rw [hkind]
  rcases stack with _ | ⟨_ | _ | _, stack⟩ <;> cases token.kind <;> rfl

/-! ## All tokens of a datum -/

theorem readOn_move (limit : Int) (progress : Progress) (tokens : List Token) :
    readOn limit (progress.move place) (tokens.map (Token.move place)) =
      (readOn limit progress tokens).move place := by
  fun_induction readOn limit progress tokens with
  | case1 form depth rest => rw [Progress.move, readOn]; rfl
  | case2 refusal depth rest => rw [Progress.move, readOn]; rfl
  | case3 stack depth =>
      rw [Progress.move, List.map_nil, readOn, missing_move, List.length_map]
      rfl
  | case4 form stack depth =>
      rw [Progress.move, List.map_nil, readOn, List.length_map]
      rfl
  | case5 stack depth token rest dot hends =>
      rw [Progress.move, List.map_cons, readOn, endsAfterDot_move, hends, List.length_map]
      rfl
  | case6 stack depth token rest hends ih =>
      rw [Progress.move, List.map_cons, readOn, endsAfterDot_move, hends, shift_move,
        List.isEmpty_map]
      exact ih
  | case7 form stack depth token rest ih =>
      rw [Progress.move, List.map_cons, readOn, close_move]
      exact ih

/-- A reading goes the same way wherever the tokens stand. -/
theorem read_move (limit : Int) (depth : Nat) (tokens : List Token) :
    read limit depth (tokens.map (Token.move place)) = (read limit depth tokens).move place :=
  readOn_move place limit (.reading [] depth) tokens

/-! ## All forms -/

/-- Reads all forms off some tokens. -/
def readAll (limit : Int) : List Token → Except Refusal (List Form)
  | [] => .ok []
  | token :: rest =>
    match (read limit 0 (token :: rest)).outcome with
    | .error refusal => .error refusal
    | .ok form => (readAll limit (read limit 0 (token :: rest)).rest).map (form :: ·)
termination_by tokens => tokens.length
decreasing_by exact length_rest_lt limit 0 token rest

theorem readAll_nil (limit : Int) : readAll limit [] = .ok [] :=
  readAll.eq_def limit []

theorem readAll_cons (limit : Int) (token : Token) (rest : List Token) :
    readAll limit (token :: rest) =
      match (read limit 0 (token :: rest)).outcome with
      | .error refusal => .error refusal
      | .ok form => (readAll limit (read limit 0 (token :: rest)).rest).map (form :: ·) :=
  readAll.eq_def limit (token :: rest)

theorem readAll_move (limit : Int) (tokens : List Token) :
    readAll limit (tokens.map (Token.move place)) =
      (readAll limit tokens).mapError (Refusal.move place) := by
  fun_induction readAll limit tokens with
  | case1 => rw [List.map_nil, readAll_nil]; rfl
  | case2 token rest refusal hrefused =>
      have hmoved := read_move place limit 0 (token :: rest)
      rw [List.map_cons] at hmoved
      rw [List.map_cons, readAll_cons, hmoved, Reading.move, hrefused]
      rfl
  | case3 token rest form hform ih =>
      have hmoved := read_move place limit 0 (token :: rest)
      rw [List.map_cons] at hmoved
      rw [List.map_cons, readAll_cons, hmoved, Reading.move, hform]
      show (readAll limit _).map _ = _
      rw [ih]
      cases readAll limit (read limit 0 (token :: rest)).rest <;> rfl

/-- A fault that is not at the end is at one of the tokens. -/
theorem offset_of_refusal {limit : Int} {tokens : List Token} {refusal : Refusal} {offset : Nat}
    (h : readAll limit tokens = .error refusal) (hoffset : refusal.offset = some offset) :
    ∃ token ∈ tokens, token.offset = offset := by
  refine Classical.byContradiction fun hnone => ?_
  -- moving that offset alone leaves the tokens where they are
  let place (n : Nat) : Nat := if n = offset then offset + 1 else n
  have hstay : tokens.map (Token.move place) = tokens := by
    refine (List.map_congr_left fun token htoken => ?_).trans (List.map_id tokens)
    have hne : token.offset ≠ offset := fun heq => hnone ⟨token, htoken, heq⟩
    simp only [Token.move, place, if_neg hne, id]
  have hmoved := readAll_move place limit tokens
  rw [hstay, h] at hmoved
  have hsame : refusal.offset = (refusal.move place).offset :=
    congrArg Refusal.offset (Except.error.inj hmoved)
  simp [Refusal.move, hoffset, place] at hsame

/-- What the reading of some tokens comes to if a lexing failure waits behind them, or none. -/
def settle (source : List Char) (failure : Option ReadError) :
    Except Refusal (List Form) → Except ReadError (List Form)
  | .error refusal => .error (refusal.shown source failure)
  | .ok forms =>
    match failure with
    | some e => .error e
    | none => .ok forms

theorem settle_map (source : List Char) (failure : Option ReadError)
    (f : List Form → List Form) (read : Except Refusal (List Form)) :
    settle source failure (read.map f) = (settle source failure read).map f := by
  cases read <;> cases failure <;> rfl

theorem settle_none (source : List Char) (read : Except Refusal (List Form)) :
    settle source none read = read.mapError (Refusal.error source) := by
  cases read with
  | ok forms => rfl
  | error refusal =>
      have hshown : refusal.shown source none = refusal.error source := by simp [Refusal.shown]
      exact congrArg Except.error hshown

end Datum

namespace TokenStream

/-- What reading all forms comes to. -/
def Forms.outcome (read : Forms) : Except ReadError (List Form) :=
  match read.failure with
  | some e => .error e
  | none => .ok read.forms

theorem Forms.outcome_cons (form : Form) (read : Forms) :
    ({ read with forms := form :: read.forms } : Forms).outcome =
      read.outcome.map (form :: ·) := by
  unfold outcome
  cases read.failure <;> rfl

theorem peek_of_failure {s : TokenStream} {e : ReadError} (hp : s.pending = [])
    (hf : s.failure = some e) : s.peek = (.error e, { s with failure := none }) := by
  obtain ⟨hlookahead, hunread⟩ := List.append_eq_nil_iff.mp hp
  rw [Option.toList_eq_nil_iff] at hlookahead
  simp [peek, atEnd, hlookahead, hunread, hf]

/-- A stream reads what its tokens are read as, and then shows its lexing failure. -/
theorem outcome_forms {limit : Int} {tokens : List Token} {s : TokenStream}
    (hlimit : s.limit = limit) (hpending : s.pending = tokens) (hdepth : s.depth = 0) :
    s.forms.outcome = Datum.settle s.source s.failure (Datum.readAll limit tokens) := by
  fun_induction Datum.readAll limit tokens generalizing s with
  | case1 =>
      rw [forms_eq]
      cases hfailure : s.failure with
      | none =>
          rw [peek_of_pending_nil hpending hfailure]
          rfl
      | some e =>
          rw [peek_of_failure hpending hfailure]
          rfl
  | case2 token rest refusal hrefused =>
      subst hlimit
      rw [← hdepth] at hrefused
      obtain ⟨s', hdatum⟩ := datum_of_refused
        (s := { s with lookahead := some token, unread := rest }) hrefused
      rw [forms_eq, peek_of_pending_cons hpending]
      simp only [hdatum]
      rfl
  | case3 token rest form hform ih =>
      subst hlimit
      let later : TokenStream :=
        { s with lookahead := none, unread := (Datum.read s.limit 0 (token :: rest)).rest }
      have hread : Datum.read s.limit s.depth (token :: rest) =
          ⟨.ok form, s.depth, later.unread⟩ := by
        have hwhole : Datum.read s.limit 0 (token :: rest) =
            ⟨.ok form, (Datum.read s.limit 0 (token :: rest)).depth, later.unread⟩ := by
          rw [← hform]
        rw [(Datum.read_eq_ok_iff.mp hwhole).1] at hwhole
        rw [hdepth, hwhole]
      have hdatum := datum_of_read (s := { s with lookahead := some token, unread := rest }) hread
      have hlater : later.forms.outcome = _ := ih rfl rfl hdepth
      rw [forms_eq, peek_of_pending_cons hpending]
      simp only [hdatum]
      rw [Forms.outcome_cons, Datum.settle_map]
      exact congrArg (Except.map (form :: ·)) hlater

end TokenStream

/-- A source is read as its tokens are, up to a lexing failure. -/
theorem parse_eq_settle (limit : Int) (source : List Char) :
    parse limit source =
      Datum.settle source (lex source).failure (Datum.readAll limit (lex source).tokens) :=
  TokenStream.outcome_forms (s := .ofSource source limit) rfl rfl rfl

theorem parse_eq_readAll {limit : Int} {source : List Char} (h : (lex source).failure = none) :
    parse limit source = (Datum.readAll limit (lex source).tokens).mapError
      (Datum.Refusal.error source) := by
  rw [parse_eq_settle, h, Datum.settle_none]

/-! ## Behind a text that is read -/

namespace Datum

/-- Behind data the reader goes on as if they were not there. -/
theorem readAll_behind {limit : Int} : ∀ {ts : List Token} {forms : List Form} {n : Nat},
    IsData ts forms n → n ≤ limit.toNat → ∀ later : List Token,
      readAll limit (ts ++ later) = (readAll limit later).map (forms ++ ·)
  | _, _, _, .nil, _, later => by
      rw [List.nil_append]
      cases readAll limit later <;> rfl
  | _, _, _, @IsData.cons ts us form forms _ _ h hrest, hn, later => by
      obtain ⟨token, ts, rfl, -⟩ := h.begins
      have hroom := Nat.le_trans (Nat.le_max_left ..) hn
      have hread := read_datum h ((levelsLeft_zero limit).symm ▸ hroom) (us ++ later)
      have hlater := readAll_behind hrest (Nat.le_trans (Nat.le_max_right ..) hn) later
      rw [List.append_assoc, List.cons_append, readAll_cons, ← List.cons_append, hread]
      show (readAll limit (us ++ later)).map _ = _
      rw [hlater]
      cases readAll limit later <;> rfl

/-- In another source the error of a refusal is moved as the refusal is. -/
theorem Refusal.error_move {source source' : List Char} {place : Nat → Nat}
    (hend : place source.length = source'.length) (refusal : Refusal) :
    (refusal.move place).error source' = (refusal.error source).move place source' := by
  obtain ⟨fault, _ | offset, atEnd⟩ := refusal
  · simp [error, move, ReadError.move, ParseError.locate, hend]
  · rfl

/-- What a reading comes to is the same further on, up to the place of its error. -/
theorem settle_move {source source' : List Char} {place : Nat → Nat}
    (hend : place source.length = source'.length) (failure : Option ReadError)
    (read : Except Refusal (List Form)) :
    settle source' (failure.map (ReadError.move place source'))
        (read.mapError (Refusal.move place)) =
      (settle source failure read).mapError (ReadError.move place source') := by
  cases read with
  | ok forms => cases failure <;> rfl
  | error refusal =>
      have herror := refusal.error_move hend
      obtain ⟨fault, offset, _ | _⟩ := refusal
      · exact congrArg Except.error herror
      · cases failure with
        | none => exact congrArg Except.error herror
        | some e => rfl

end Datum

/-- Behind a text that is read, a text is read as it is by itself, or has its fault further on. -/
theorem parse_behind {limit : Int} {first : List Char} {forms : List Form}
    (h : parse limit first = .ok forms) (second : List Char) :
    let joined := first ++ '\n' :: second
    parse limit joined = ((parse limit second).map (forms ++ ·)).mapError
      (ReadError.move (· + (first.length + 1)) joined) := by
  intro joined
  obtain ⟨hlexed, n, hdata, hn⟩ := parse_eq_ok_iff.mp h
  obtain ⟨htokens, hfailure⟩ := lex_joined hlexed second
  have hend : second.length + (first.length + 1) = joined.length := by
    simp only [joined, List.length_append, List.length_cons]
    omega
  rw [parse_eq_settle, htokens, hfailure, Datum.readAll_behind hdata hn, Datum.readAll_move,
    Datum.settle_map, Datum.settle_move hend, ← parse_eq_settle]
  cases parse limit second <;> rfl

/-- Behind a text that is read, a text is read if it is by itself. -/
theorem parse_joined {limit : Int} {first : List Char} {forms : List Form}
    (h : parse limit first = .ok forms) (second : List Char) (all : List Form) :
    parse limit (first ++ '\n' :: second) = .ok all ↔
      ∃ later, parse limit second = .ok later ∧ all = forms ++ later := by
  rw [parse_behind h]
  cases parse limit second with
  | error e =>
      constructor
      · rintro ⟨⟩
      · rintro ⟨later, ⟨⟩, -⟩
  | ok later =>
      constructor
      · rintro ⟨⟩
        exact ⟨later, rfl, rfl⟩
      · rintro ⟨_, ⟨⟩, rfl⟩
        rfl

end TableLisp

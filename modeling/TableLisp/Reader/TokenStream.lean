import TableLisp.Reader.Datum

/-!
# Token streams

A stream hands out the tokens of a source one at a time, or datum by datum, and looks at most one
token ahead. A lexing failure shows only once the tokens before it are used up, and only once; from
then on the stream is at its end. A datum that cannot be read leaves the tokens after the fault in
the stream.

- `TokenStream.peek`, `TokenStream.advance`, `TokenStream.datum`: single steps.
- `TokenStream.forms`: every form up to the end or to the first failure.
- `parse`: the forms of a whole source, or its first error.
-/

namespace TableLisp

/-- A stream of tokens. `source` is the text that the places of its own errors refer to. -/
structure TokenStream where
  source : List Char
  limit : Int
  lookahead : Option Token
  unread : List Token
  failure : Option ReadError
  depth : Nat

namespace TokenStream

def ofLexed (lexed : Lexed) (source : List Char) (limit : Int) : TokenStream :=
  { source, limit, lookahead := none, unread := lexed.tokens, failure := lexed.failure, depth := 0 }

def ofSource (source : List Char) (limit : Int) : TokenStream :=
  ofLexed (lex source) source limit

/-- The tokens still to come. -/
def pending (s : TokenStream) : List Token :=
  s.lookahead.toList ++ s.unread

/-- The outcome at the end of the tokens: the lexing failure if it has not shown yet, or else
`outcome`. -/
def atEnd (s : TokenStream) (outcome : Except ReadError α) : Except ReadError α × TokenStream :=
  match s.failure with
  | some e => (.error e, { s with failure := none })
  | none => (outcome, s)

def peek (s : TokenStream) : Except ReadError (Option Token) × TokenStream :=
  match s.lookahead, s.unread with
  | some token, _ => (.ok (some token), s)
  | none, token :: rest => (.ok (some token), { s with lookahead := some token, unread := rest })
  | none, [] => s.atEnd (.ok none)

def advance (s : TokenStream) : Except ReadError (Option Token) × TokenStream :=
  match s.lookahead, s.unread with
  | some token, _ => (.ok (some token), { s with lookahead := none })
  | none, token :: rest => (.ok (some token), { s with unread := rest })
  | none, [] => s.atEnd (.ok none)

def datum (s : TokenStream) : Except ReadError Form × TokenStream :=
  let reading := Datum.read s.limit s.depth s.pending
  let s := { s with lookahead := none, unread := reading.rest, depth := reading.depth }
  match reading.outcome with
  | .ok form => (.ok form, s)
  | .error refusal =>
    let offset := refusal.offset.getD s.source.length
    let e := .parse (.locate s.source refusal.fault offset)
    if refusal.atEnd then s.atEnd (.error e) else (.error e, s)

/-! ## Steps and the tokens to come -/

theorem pending_atEnd (s : TokenStream) (outcome : Except ReadError α) :
    (s.atEnd outcome).2.pending = s.pending := by
  unfold atEnd pending
  split <;> rfl

theorem pending_peek (s : TokenStream) : s.peek.2.pending = s.pending := by
  unfold peek
  split
  · rfl
  · simp_all [pending]
  · exact pending_atEnd ..

theorem pending_of_peek {s : TokenStream} {token : Token} (h : s.peek.1 = .ok (some token)) :
    ∃ rest, s.pending = token :: rest := by
  unfold peek atEnd at h
  unfold pending
  repeat' split at h
  all_goals simp_all

theorem pending_datum (s : TokenStream) :
    s.datum.2.pending = (Datum.read s.limit s.depth s.pending).rest := by
  unfold datum
  dsimp only
  split
  · rfl
  · split
    · exact pending_atEnd ..
    · rfl

theorem length_pending_datum {s s' : TokenStream} {token : Token}
    (h : s.peek = (.ok (some token), s')) : s'.datum.2.pending.length < s.pending.length := by
  obtain ⟨rest, hrest⟩ := pending_of_peek (congrArg Prod.fst h)
  have hs : s'.pending = s.pending := by simpa [h] using pending_peek s
  rw [pending_datum, hs, hrest]
  exact Datum.length_rest_lt ..

/-! ## All forms -/

structure Forms where
  forms : List Form
  failure : Option ReadError
  stream : TokenStream

def forms (s : TokenStream) : Forms :=
  match h : s.peek with
  | (.error e, s') => ⟨[], some e, s'⟩
  | (.ok none, s') => ⟨[], none, s'⟩
  | (.ok (some _), s') =>
    match h' : s'.datum with
    | (.error e, s'') => ⟨[], some e, s''⟩
    | (.ok form, s'') =>
      have : s''.pending.length < s.pending.length := by
        have := length_pending_datum h
        rwa [h'] at this
      let later := s''.forms
      { later with forms := form :: later.forms }
termination_by s.pending.length

end TokenStream

/-- Reads every form of a source, or fails with its first error. -/
def parse (limit : Int) (source : List Char) : Except ReadError (List Form) :=
  let read := (TokenStream.ofSource source limit).forms
  match read.failure with
  | some e => .error e
  | none => .ok read.forms

/-! ## Sessions on a stream -/

namespace TokenStream

/-- What a stream can be asked for. The requests for the next form share one iteration, which has
ended once it has met the end or a failure. -/
inductive Request
  | peek | advance | datum | next | forms
  deriving DecidableEq, Repr

inductive Answer
  | token (token : Option Token)
  | form (form : Form)
  | ended
  | forms (forms : List Form) (failure : Option ReadError)
  | failed (e : ReadError)

def Answer.ofExcept (answer : α → Answer) : Except ReadError α → Answer
  | .ok a => answer a
  | .error e => .failed e

/-- A stream and whether the iteration through its forms has ended. -/
structure Iteration where
  stream : TokenStream
  ended : Bool

def Iteration.next (it : Iteration) : Answer × Iteration :=
  if it.ended then (.ended, it)
  else
    match it.stream.peek with
    | (.error e, s) => (.failed e, ⟨s, true⟩)
    | (.ok none, s) => (.ended, ⟨s, true⟩)
    | (.ok (some _), s) =>
      match s.datum with
      | (.error e, s) => (.failed e, ⟨s, true⟩)
      | (.ok form, s) => (.form form, ⟨s, false⟩)

def Iteration.answer (it : Iteration) : Request → Answer × Iteration
  | .peek =>
    let (outcome, stream) := it.stream.peek
    (.ofExcept .token outcome, { it with stream })
  | .advance =>
    let (outcome, stream) := it.stream.advance
    (.ofExcept .token outcome, { it with stream })
  | .datum =>
    let (outcome, stream) := it.stream.datum
    (.ofExcept .form outcome, { it with stream })
  | .next => it.next
  | .forms =>
    let read := it.stream.forms
    (.forms read.forms read.failure, { it with stream := read.stream })

end TokenStream

end TableLisp

import TableLisp.Form
import TableLisp.Reader.Token

/-!
# Reading one datum

Tokens become a form by shifting and reducing. The reader keeps a stack of the constructs that are
still open; a form that is complete is delivered to the innermost of them, which it may complete in
turn. Every quote mark and every list counts one level of nesting, and no level is opened beyond the
limit.

Each token is looked at once, so the reader is a recursion on the tokens (`Datum.read`), and a datum
takes at least one of them (`Datum.length_rest_lt`).
-/

namespace TableLisp

namespace Datum

/-! ## Open constructs -/

/-- A construct that is still open. The items of a list are held in reverse. -/
inductive Opening
  /-- A quote mark that waits for its form. -/
  | quote (offset : Nat)
  /-- A list, from its parenthesis to the last item. -/
  | list (offset : Nat) (items : List Form)
  /-- A list after its dot, which waits for the tail. -/
  | tail (dot : Nat) (items : List Form)
  deriving Repr

def listForm (items : List Form) : Form :=
  if items.isEmpty then .const .nil else .list items.reverse

/-- The form of a list with a dot. With nothing before the dot, the tail stands for itself. -/
def dottedForm (items : List Form) (tail : Form) : Form :=
  if items.isEmpty then tail else .dotted items.reverse tail

/-- Why a datum cannot be read, and where: at an offset, or at the end of the source. A fault that a
further token might have averted is one `atEnd`. -/
structure Refusal where
  fault : Fault
  offset : Option Nat
  atEnd : Bool
  deriving DecidableEq, Repr

/-- How far the reading of a datum has come, and the nesting depth there. -/
inductive Progress
  /-- The datum is complete. -/
  | finished (form : Form) (depth : Nat)
  /-- A form is expected, or the end of the innermost list. -/
  | reading (stack : List Opening) (depth : Nat)
  /-- The tail of a dotted list is complete, and its parenthesis is expected. -/
  | closing (form : Form) (stack : List Opening) (depth : Nat)
  /-- No datum can be read. -/
  | refused (refusal : Refusal) (depth : Nat)

def deliver (form : Form) : List Opening → Nat → Progress
  | [], depth => .finished form depth
  | .quote _ :: stack, depth => deliver (.quoted form) stack (depth - 1)
  | .list offset items :: stack, depth => .reading (.list offset (form :: items) :: stack) depth
  | .tail _ items :: stack, depth => .closing (dottedForm items form) stack depth

/-! ## One token -/

/-- The depth after a refusal: everything open is abandoned. -/
def refuse (fault : Fault) (offset : Nat) (stack : List Opening) (depth : Nat) : Progress :=
  .refused ⟨fault, some offset, false⟩ (depth - stack.length)

/-- Opens one more construct at an offset, if the limit allows it. -/
def descend (limit : Int) (opening : Opening) (offset : Nat) (stack : List Opening) (depth : Nat) :
    Progress :=
  if limit ≤ depth then refuse .tooDeep offset stack depth
  else .reading (opening :: stack) (depth + 1)

/-- Takes a token where a form or the end of a list is expected. A quote mark with no token after it
is left to fail for that reason, whatever the depth. -/
def shift (limit : Int) (stack : List Opening) (depth : Nat) (token : Token) (last : Bool) :
    Progress :=
  match token.kind with
  | .number => deliver (.const (.int token.integer)) stack depth
  | .symbol => deliver (.sym token.text) stack depth
  | .string => deliver (.const (.str token.content)) stack depth
  | .quote =>
    if last then .reading (.quote token.offset :: stack) (depth + 1)
    else descend limit (.quote token.offset) token.offset stack depth
  | .lparen => descend limit (.list token.offset []) token.offset stack depth
  | .rparen =>
    match stack with
    | .list _ items :: stack => deliver (listForm items) stack (depth - 1)
    | _ => refuse .unmatchedClose token.offset stack depth
  | .dot =>
    match stack with
    | .list _ items :: stack => .reading (.tail token.offset items :: stack) depth
    | _ => refuse .strayDot token.offset stack depth

/-- Takes a token where the parenthesis of a dotted list is expected. -/
def close (form : Form) (stack : List Opening) (depth : Nat) (token : Token) : Progress :=
  if token.kind = .rparen then deliver form stack (depth - 1)
  else .refused ⟨.tailNotClosed, some token.offset, false⟩ (depth - (stack.length + 1))

/-- What is missing when the tokens run out where a form or the end of a list is expected. -/
def missing : List Opening → Refusal
  | [] => ⟨.nothingToRead, none, true⟩
  | .quote offset :: _ => ⟨.nothingAfterQuote, some offset, true⟩
  | .list offset _ :: _ => ⟨.unmatchedOpen, some offset, true⟩
  | .tail dot _ :: _ => ⟨.nothingAfterDot, some dot, true⟩

/-! ## All tokens -/

/-- What the reading of a datum comes to: the form or the refusal, the depth, and the tokens that
were not taken. -/
structure Reading where
  outcome : Except Refusal Form
  depth : Nat
  rest : List Token

/-- A parenthesis right after a dot ends nothing, and is left for the next datum. -/
def endsAfterDot (stack : List Opening) (token : Token) : Option Nat :=
  match stack, token.kind with
  | .tail dot _ :: _, .rparen => some dot
  | _, _ => none

def readOn (limit : Int) : Progress → List Token → Reading
  | .finished form depth, rest => ⟨.ok form, depth, rest⟩
  | .refused refusal depth, rest => ⟨.error refusal, depth, rest⟩
  | .reading stack depth, [] => ⟨.error (missing stack), depth - stack.length, []⟩
  | .closing _ stack depth, [] =>
    ⟨.error ⟨.tailNotClosed, none, true⟩, depth - (stack.length + 1), []⟩
  | .reading stack depth, token :: rest =>
    match endsAfterDot stack token with
    | some dot => ⟨.error ⟨.nothingAfterDot, some dot, false⟩, depth - stack.length, token :: rest⟩
    | none => readOn limit (shift limit stack depth token rest.isEmpty) rest
  | .closing form stack depth, token :: rest =>
    readOn limit (close form stack depth token) rest

/-- Reads one datum, starting at a nesting depth. -/
def read (limit : Int) (depth : Nat) (tokens : List Token) : Reading :=
  readOn limit (.reading [] depth) tokens

theorem length_rest_readOn (limit : Int) (progress : Progress)
    (tokens : List Token) :
    (readOn limit progress tokens).rest.length ≤ tokens.length := by
  fun_induction readOn limit progress tokens <;> simp_all <;> omega

/-- A datum takes at least one token. -/
theorem length_rest_lt (limit : Int) (depth : Nat) (token : Token) (rest : List Token) :
    (read limit depth (token :: rest)).rest.length < (token :: rest).length := by
  have h := length_rest_readOn limit (shift limit [] depth token rest.isEmpty) rest
  simpa [read, readOn, endsAfterDot] using Nat.lt_succ_of_le h

end Datum

end TableLisp

import TableLisp.Session
import TableLisp.Table.Transaction
import TableLisp.Table.Display

/-!
# Table transformation

A program transforms a table: it runs in a session of its own in which `table` is bound, and its
value is the result. What keeps the program from being read or from finishing is reported as the
cause of a failed transformation; a numeral that is too long is not, and fails on its own account,
be it one to be read or one to be written in the wording of an error.
-/

namespace TableLisp

inductive TransformError
  | unreadable (cause : ParseError)
  | failed (cause : EvalError)
  /-- The program holds a numeral that is too long to be read. -/
  | numeralTooLong
  /-- The run failed, and its error cannot be worded. -/
  | unwritable (cause : EvalError)
  deriving DecidableEq, Repr

/-- The wording of an error; a numeral that is too long has none. -/
def TransformError.message? : TransformError → Option String
  | unreadable cause => some ("Parse error: " ++ cause.message)
  | failed cause => some ("Evaluation error: " ++ cause.message)
  | numeralTooLong | unwritable _ => none

/-- The failed transformation that a failed run is. -/
def TransformError.ofRunError : RunError → TransformError
  | .read (.parse cause) => unreadable cause
  | .read .numeralTooLong => numeralTooLong
  | .eval cause => if cause.isWritable then failed cause else unwritable cause

def tableName : String := "table"

/-- Runs a program on a table, in a new session on a state. -/
def transform (s : State) (table : Value) (program : String) :
    Except TransformError Value × State :=
  let (outcome, session) := (s.newSession.define tableName table).run program
  (outcome.mapError .ofRunError, session.state)

end TableLisp

import TableLisp.Text.Line
import TableLisp.Text.Quoted

/-!
# Reading errors

Why a source text cannot be read, and where. `ParseError.locate` places a fault in its source;
`ReadError` adds the one failure that has no place, a numeral longer than any integer may be.
-/

namespace TableLisp

open Text

inductive Fault
  | unexpectedCharacter (c : Char)
  | unterminatedString
  | integerRange (numeral : String)
  | invalidNumber (text : String)
  | nothingToRead
  | nothingAfterQuote
  | nothingAfterDot
  | tooDeep
  | unmatchedOpen
  | unmatchedClose
  | strayDot
  | tailNotClosed
  deriving DecidableEq, Repr

def Fault.message : Fault → String
  | unexpectedCharacter c => "Unexpected character " ++ Quoted.encode (.singleton c)
  | unterminatedString => "Unterminated string literal"
  | integerRange numeral => "Integer literal out of range: " ++ numeral
  | invalidNumber text => "Invalid number literal: " ++ text
  | nothingToRead => "Unexpected end of input"
  | nothingAfterQuote => "Expected an expression after quote"
  | nothingAfterDot => "Expected an expression after '.'"
  | tooDeep => "Nesting too deep"
  | unmatchedOpen => "Unmatched '('"
  | unmatchedClose => "Unmatched ')'"
  | strayDot => "Unexpected '.' outside of a list"
  | tailNotClosed => "Expected ')' after dotted tail"

structure ParseError where
  fault : Fault
  offset : Nat
  position : Position
  deriving DecidableEq, Repr

namespace ParseError

def locate (source : List Char) (fault : Fault) (offset : Nat) : ParseError :=
  { fault, offset, position := .ofOffset source offset }

/-- The line of the fault, counted from one. -/
def line (e : ParseError) : Nat := e.position.line + 1

/-- The column of the fault, counted from one. -/
def column (e : ParseError) : Nat := e.position.column + 1

/-- The wording of the fault, followed by its place. -/
def message (e : ParseError) : String :=
  e.fault.message ++ " (line " ++ e.line.repr ++ ", column " ++ e.column.repr ++ ")"

end ParseError

inductive ReadError
  | parse (e : ParseError)
  | numeralTooLong
  deriving DecidableEq, Repr

end TableLisp

import TableLisp.Text.Blank
import TableLisp.Text.Line

/-!
# At the cursor

What stands around a place in a buffer, given by the number of a line and by a character in it, both
from zero. Lines end as an editor ends them and keep their break.
-/

namespace TableLisp.Cursor

open Text

/-- The text of a line up to a character; a line beyond the buffer has none. -/
def linePrefix (buffer : List Char) (line character : Nat) : List Char :=
  ((splitLines buffer)[line]?.getD []).take character

def isWordBreak (c : Char) : Bool :=
  c == ' ' || c == '\t' || c == '(' || c == ')' || c == '\'' || c == '"' || c == '\n' || c == '\r'

/-- A word under the cursor and the character it starts at. -/
structure Hit where
  word : Option (List Char)
  start : Nat
  deriving DecidableEq, Repr

def wordInLine (line : List Char) (character : Nat) : Hit :=
  let before := ((line.take character).reverse.takeWhile (!isWordBreak ·)).reverse
  let after := (line.drop character).takeWhile (!isWordBreak ·)
  let word := before ++ after
  ⟨if word.isEmpty then none else some word, character - before.length⟩

/-- The word around a place. There is none beyond the last line, and no answer at all beyond the end
of a line. -/
def wordAt (buffer : List Char) (line character : Nat) : Option Hit :=
  match (splitLines buffer)[line]? with
  | none => some ⟨none, character⟩
  | some text => if text.length < character then none else some (wordInLine text character)

/-- The head of the call that a prefix of a line is in: the word after the last opening parenthesis,
which is empty where that is closed at once. -/
def callee? (before : List Char) : Option (List Char) :=
  if before.contains '(' then
    let call := trim (before.reverse.takeWhile (· != '(')).reverse
    if call.isEmpty then none else some (call.takeWhile fun c => !(isBlank c || c == ')'))
  else none

end TableLisp.Cursor

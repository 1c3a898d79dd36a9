/-!
# Lines and positions

Two notions of a line meet here. A *position* counts line feeds only, and an editor's *line* also
ends at the other line breaks (`splitLines`). Both work on offsets in characters.

- `Position.ofOffset`: the line and the column of an offset, both from zero.
- `Position.inBuffer`: the same place, as an editor finds it.
- `splitLines`: the lines of a text, each with the break that ends it.
- `unifyBreaks`: a text with every line ending written as a line feed.
-/

namespace TableLisp.Text

/-! ## Positions -/

/-- A place in a text, its line and its column counted from zero. -/
structure Position where
  line : Nat
  column : Nat
  deriving DecidableEq, Repr

def lastLineLength (cs : List Char) : Nat :=
  (cs.reverse.takeWhile (· != '\n')).length

/-- The place of an offset: lines are ended by line feeds alone. An offset beyond the end lies in
the last line. -/
def Position.ofOffset (text : List Char) (offset : Nat) : Position :=
  let before := text.take offset
  { line := before.count '\n'
    column := offset - (before.length - lastLineLength before) }

def lastLineFeed? (cs : List Char) : Option Nat :=
  (cs.reverse.findIdx? (· == '\n')).map (cs.length - 1 - ·)

/-- The place of an offset of a buffer, counted from the last line feed in front of it. -/
def Position.inBuffer (buffer : List Char) (offset : Nat) : Position :=
  let before := buffer.take offset
  { line := before.count '\n'
    column :=
      match lastLineFeed? before with
      | none => offset
      | some feed => offset - feed - 1 }

theorem lastLineLength_le (cs : List Char) : lastLineLength cs ≤ cs.length := by
  simpa [lastLineLength] using (List.takeWhile_sublist (l := cs.reverse) (· != '\n')).length_le

/-! ## Editor lines -/

/-- The characters that end an editor's line. -/
def isLineBreak (c : Char) : Bool :=
  let n := c.toNat
  (0x0A ≤ n && n ≤ 0x0D) || (0x1C ≤ n && n ≤ 0x1E) || n == 0x85 || n == 0x2028 || n == 0x2029

/-- Splits a text into its lines, each with the break that ends it; a carriage return and the line
feed after it are one break. `line` holds the characters of the current line in reverse. -/
def splitLinesFrom (line : List Char) : List Char → List (List Char)
  | [] => if line.isEmpty then [] else [line.reverse]
  | '\r' :: '\n' :: rest => ('\n' :: '\r' :: line).reverse :: splitLinesFrom [] rest
  | c :: rest =>
    if isLineBreak c then (c :: line).reverse :: splitLinesFrom [] rest
    else splitLinesFrom (c :: line) rest

/-- The lines of a text, each with the break that ends it. -/
def splitLines (text : List Char) : List (List Char) :=
  splitLinesFrom [] text

theorem flatten_splitLinesFrom (line text : List Char) :
    (splitLinesFrom line text).flatten = line.reverse ++ text := by
  fun_induction splitLinesFrom line text <;> simp_all

/-- Splitting loses no character. -/
theorem flatten_splitLines (text : List Char) : (splitLines text).flatten = text := by
  simp [splitLines, flatten_splitLinesFrom]

/-- The lines of an input that is read one line at a time: they end at line feeds only, and nothing
follows the last line feed. `line` holds the current line in reverse. -/
def inputLinesFrom (line : List Char) : List Char → List (List Char)
  | [] => if line.isEmpty then [] else [line.reverse]
  | c :: rest =>
    if c = '\n' then line.reverse :: inputLinesFrom [] rest else inputLinesFrom (c :: line) rest

def inputLines (text : List Char) : List (List Char) :=
  inputLinesFrom [] text

/-- Writes every line ending, a carriage return with or without a line feed, as a line feed. -/
def unifyBreaks : List Char → List Char
  | [] => []
  | '\r' :: '\n' :: rest => '\n' :: unifyBreaks rest
  | c :: rest => (if c = '\r' then '\n' else c) :: unifyBreaks rest

end TableLisp.Text

import TableLisp.Reader.Token

/-!
# Words of a buffer

An editor's buffer is seldom a whole program, so it is cut into words without ever failing:
parentheses and quote marks, strings, and runs of other characters. Blanks and comments separate
words; a double quote that opens no string is passed over.
-/

namespace TableLisp

open Text

structure Word where
  text : List Char
  offset : Nat
  deriving DecidableEq, Repr

namespace Word

theorem length_later_lt {p : Char → Bool} {c : Char} {rest later : List Char}
    (h : rest.dropWhile p = c :: later) : later.length < rest.length := by
  have hle := (List.dropWhile_sublist (l := rest) p).length_le
  rw [h, List.length_cons] at hle
  exact hle

/-- The words from an offset on. `done` holds the earlier words in reverse. -/
def collect (offset : Nat) (done : List Word) : List Char → List Word
  | [] => done.reverse
  | c :: rest =>
    if isBlank c then collect (offset + 1) done rest
    else if c = ';' then
      have : (rest.dropWhile (· != '\n')).length ≤ rest.length :=
        (List.dropWhile_sublist _).length_le
      let comment := rest.takeWhile (· != '\n')
      collect (offset + 1 + comment.length) done (rest.dropWhile (· != '\n'))
    else if c = '(' || c = ')' || c = '\'' then
      collect (offset + 1) (⟨[c], offset⟩ :: done) rest
    else if c = '"' then
      let content := rest.takeWhile (· != '"')
      match h : rest.dropWhile (· != '"') with
      | [] => collect (offset + 1) done rest
      | close :: later =>
        have : later.length < rest.length := length_later_lt h
        collect (offset + 1 + content.length + 1) (⟨c :: content ++ [close], offset⟩ :: done) later
    else
      have : (rest.dropWhile isAtomChar).length ≤ rest.length :=
        (List.dropWhile_sublist _).length_le
      let run := rest.takeWhile isAtomChar
      collect (offset + 1 + run.length) (⟨c :: run, offset⟩ :: done) (rest.dropWhile isAtomChar)
termination_by cs => cs.length

def ofBuffer (buffer : List Char) : List Word :=
  collect 0 [] buffer

end Word

end TableLisp

import TableLisp.Reader.Error
import TableLisp.Text.Numeral

/-!
# Tokens

Source text is a sequence of pieces: blanks, comments, marks, strings and atoms. `Piece.cut` takes
the first piece off a text, and no character is lost between pieces (`Piece.cut_append`). The pieces
that carry meaning are the tokens, each with its text and its offset; `lex` collects them up to the
end of the source or to the first piece that is no token.
-/

namespace TableLisp

open Text

/-! ## Tokens -/

inductive Token.Kind
  | quote | lparen | rparen | string | dot | number | symbol
  deriving DecidableEq, Repr

/-- A token: its kind, its text in the source, and the offset of that text. -/
structure Token where
  kind : Token.Kind
  text : String
  offset : Nat
  deriving DecidableEq, Repr

namespace Token

def integer (token : Token) : Int :=
  Numeral.plainValue token.text.toList

/-- The content of a string token, which its text has between two double quotes. -/
def content (token : Token) : String :=
  String.ofList token.text.toList.tail.dropLast

end Token

/-! ## Pieces -/

def isAtomChar (c : Char) : Bool :=
  !(isBlank c || c == '(' || c == ')' || c == '\'' || c == '"' || c == ';')

inductive Piece.Shape
  | blank | comment | mark (kind : Token.Kind) | string | unclosed | atom | unexpected (c : Char)
  deriving DecidableEq, Repr

/-- A piece at the front of a text, with what follows it. -/
structure Piece where
  shape : Piece.Shape
  text : List Char
  rest : List Char

namespace Piece

/-- Takes the first piece off a text. -/
def cut (c : Char) (rest : List Char) : Piece :=
  if isBlank c then ⟨.blank, [c], rest⟩
  else if c = ';' then ⟨.comment, c :: rest.takeWhile (· != '\n'), rest.dropWhile (· != '\n')⟩
  else if c = '\'' then ⟨.mark .quote, [c], rest⟩
  else if c = '(' then ⟨.mark .lparen, [c], rest⟩
  else if c = ')' then ⟨.mark .rparen, [c], rest⟩
  else if c = '"' then
    match rest.dropWhile (· != '"') with
    | [] => ⟨.unclosed, [c], rest⟩
    | close :: rest' => ⟨.string, c :: rest.takeWhile (· != '"') ++ [close], rest'⟩
  else if isAtomChar c then ⟨.atom, c :: rest.takeWhile isAtomChar, rest.dropWhile isAtomChar⟩
  else ⟨.unexpected c, [c], rest⟩

/-- A piece and its rest are the text that it was cut from. -/
theorem cut_append (c : Char) (rest : List Char) :
    (cut c rest).text ++ (cut c rest).rest = c :: rest := by
  unfold cut
  repeat' split
  all_goals simp_all [List.takeWhile_append_dropWhile]
  next h => rw [← h, List.takeWhile_append_dropWhile]

/-- A character that begins none of the other pieces begins an atom, so none is unexpected. -/
theorem isAtomChar_of_other {c : Char} (hblank : ¬ isBlank c = true) (hsemi : ¬ c = ';')
    (hq : ¬ c = '\'') (hl : ¬ c = '(') (hr : ¬ c = ')') (hs : ¬ c = '"') :
    isAtomChar c = true := by
  simp [isAtomChar, hblank, hsemi, hq, hl, hr, hs]

theorem cut_text_ne_nil (c : Char) (rest : List Char) : (cut c rest).text ≠ [] := by
  unfold cut
  repeat' split
  all_goals simp

theorem length_cut_rest (c : Char) (rest : List Char) :
    (cut c rest).rest.length < (c :: rest).length := by
  have := congrArg List.length (cut_append c rest)
  have := List.length_pos_iff.mpr (cut_text_ne_nil c rest)
  simp only [List.length_append] at *
  omega

end Piece

/-! ## Atoms -/

/-- The integers of source text: those of 64 bits with a sign. -/
def inWordRange (n : Int) : Bool :=
  -0x8000000000000000 ≤ n && n < 0x8000000000000000

/-- The kind of an atom, or why it is none. -/
def atomKind (source text : List Char) (offset : Nat) : Except ReadError Token.Kind :=
  if text = ['.'] then .ok .dot
  else if Numeral.isPlain text then
    if Numeral.maxDigits < (Numeral.unsigned text).length then .error .numeralTooLong
    else if inWordRange (Numeral.plainValue text) then .ok .number
    else .error (.parse (.locate source (.integerRange (.ofList text)) offset))
  else if Numeral.beginsPlain text then
    .error (.parse (.locate source (.invalidNumber (.ofList text)) offset))
  else .ok .symbol

/-- The kind of the token that a piece is; blanks and comments are no tokens. -/
def Piece.kind? (source : List Char) (offset : Nat) (piece : Piece) :
    Except ReadError (Option Token.Kind) :=
  match piece.shape with
  | .blank | .comment => .ok none
  | .mark kind => .ok (some kind)
  | .string => .ok (some .string)
  | .unclosed => .error (.parse (.locate source .unterminatedString offset))
  | .atom => (atomKind source piece.text offset).map some
  | .unexpected c => .error (.parse (.locate source (.unexpectedCharacter c) offset))

/-! ## Lexing -/

/-- The tokens of a source, and the error that ended them early, if one did. -/
structure Lexed where
  tokens : List Token
  failure : Option ReadError
  deriving DecidableEq, Repr

/-- Lexes what is left of a source from an offset on. `done` holds the earlier tokens, reversed. -/
def lexFrom (source : List Char) (offset : Nat) (done : List Token) : List Char → Lexed
  | [] => ⟨done.reverse, none⟩
  | c :: rest =>
    let piece := Piece.cut c rest
    let next := offset + piece.text.length
    match piece.kind? source offset with
    | .error e => ⟨done.reverse, some e⟩
    | .ok none => lexFrom source next done piece.rest
    | .ok (some kind) => lexFrom source next (⟨kind, .ofList piece.text, offset⟩ :: done) piece.rest
termination_by cs => cs.length
decreasing_by all_goals exact Piece.length_cut_rest c rest

def lex (source : List Char) : Lexed :=
  lexFrom source 0 [] source

end TableLisp

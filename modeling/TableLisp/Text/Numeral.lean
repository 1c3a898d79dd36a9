import TableLisp.Text.Blank
import TableLisp.Text.Digit

/-!
# Integers as text

Two grammars of integers live here. A *plain* numeral, the one of source text, is an optional
minus and ASCII digits. A *loose* numeral, the one of settings and of amounts, has blanks around
it, either sign, the digits of any script, and single underscores between digits (`readInteger?`).

Both are limited to `maxDigits` digits, where they are read and where they are written: every
integer has a decimal text (`text`), but a longer one is never written (`isWritable`).
-/

namespace TableLisp.Text.Numeral

/-- The most digits a numeral may have, leading zeros counted and the sign not. -/
def maxDigits : Nat := 4300

/-! ## Plain numerals -/

def unsigned : List Char → List Char
  | '-' :: digits => digits
  | digits => digits

/-- An optional minus and at least one ASCII digit, and nothing else. -/
def isPlain (cs : List Char) : Bool :=
  !(unsigned cs).isEmpty && (unsigned cs).all isAsciiDigit

/-- A text that begins like a plain numeral, whatever follows. -/
def beginsPlain (cs : List Char) : Bool :=
  (unsigned cs).head?.any isAsciiDigit

/-- The integer that a plain numeral stands for. -/
def plainValue : List Char → Int
  | '-' :: digits => -(Nat.ofDigitChars 10 digits 0 : Int)
  | digits => (Nat.ofDigitChars 10 digits 0 : Int)

/-- The decimal text of an integer, which is a plain numeral. -/
def text (n : Int) : String := n.repr

/-- How many digits the decimal text of an integer has. -/
def digitCount (n : Int) : Nat :=
  (Nat.toDigits 10 n.natAbs).length

/-- Whether an integer can be written. -/
def isWritable (n : Int) : Bool :=
  digitCount n ≤ maxDigits

/-- The decimal text of an integer, filled up with zeros after the sign to a width. -/
def padded (width : Nat) (n : Int) : String :=
  let digits := n.natAbs.repr
  let sign := if n < 0 then "-" else ""
  sign ++ "".pushn '0' (width - sign.length - digits.length) ++ digits

theorem beginsPlain_of_isPlain {cs : List Char} (h : isPlain cs = true) :
    beginsPlain cs = true := by
  unfold isPlain at h
  unfold beginsPlain
  cases hu : unsigned cs <;> simp_all

/-! ## Loose numerals -/

/-- What the digits are worth, most significant first; an underscore stands between two digits. -/
def groupedDigits? : List Char → Option (List Nat)
  | [] => none
  | [c] => (digitValue? c).map ([·])
  | c :: '_' :: rest => do return (← digitValue? c) :: (← groupedDigits? rest)
  | c :: rest => do return (← digitValue? c) :: (← groupedDigits? rest)

/-- The number that digits stand for, most significant first. -/
def ofDigits (digits : List Nat) : Nat :=
  digits.foldl (fun n digit => 10 * n + digit) 0

def readNatural? (cs : List Char) : Option Nat := do
  let digits ← groupedDigits? cs
  if digits.length ≤ maxDigits then return ofDigits digits else none

def readInteger? (cs : List Char) : Option Int :=
  match trimBy (fun c => isBlank c && !isSeparator c) cs with
  | '+' :: rest => (readNatural? rest).map fun n => (n : Int)
  | '-' :: rest => (readNatural? rest).map fun n => -(n : Int)
  | rest => (readNatural? rest).map fun n => (n : Int)

end TableLisp.Text.Numeral

import TableLisp.Text.Printable

/-!
# Quoted text

A text as a one-line literal, for the listings of an environment. The single quote is the usual
delimiter; the double quote takes its place when the text holds single quotes and no double quote.
Backslashes, the delimiter and characters without a visible form are escaped.
-/

namespace TableLisp.Text.Quoted

/-- The lower-case hexadecimal digits of a number, filled up with zeros to a width. -/
def hex (width n : Nat) : List Char :=
  let digits := Nat.toDigits 16 n
  List.replicate (width - digits.length) '0' ++ digits

/-- A character without a visible form, by the shortest of the three numeric escapes. -/
def numericEscape (c : Char) : List Char :=
  if c.toNat < 0x100 then '\\' :: 'x' :: hex 2 c.toNat
  else if c.toNat < 0x10000 then '\\' :: 'u' :: hex 4 c.toNat
  else '\\' :: 'U' :: hex 8 c.toNat

/-- A character inside a literal with the given delimiter. -/
def encodeChar (delimiter c : Char) : List Char :=
  if c = '\\' || c = delimiter then ['\\', c]
  else if c = '\n' then ['\\', 'n']
  else if c = '\r' then ['\\', 'r']
  else if c = '\t' then ['\\', 't']
  else if isPrintable c then [c]
  else numericEscape c

def delimiterFor (cs : List Char) : Char :=
  if cs.contains '\'' && !cs.contains '"' then '"' else '\''

def encode (text : String) : String :=
  let cs := text.toList
  let delimiter := delimiterFor cs
  String.ofList (delimiter :: cs.flatMap (encodeChar delimiter) ++ [delimiter])

end TableLisp.Text.Quoted

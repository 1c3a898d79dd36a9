import TableLisp.Text.Numeral
import TableLisp.Text.Quoted
import TableLisp.Value.Basic
import TableLisp.SpecialForm

/-!
# Printed values

A value prints as the list that would be read for it: a chain of pairs between parentheses, with a
dot before a terminal that is not `nil`. The writer (`textWith`) is stated for any way of painting
the atoms, and used with three of them.

- `Value.text`: the plain text.
- `Value.coloured`: the plain text with colour codes around the chosen kinds of atoms.
- `Value.inspect`: the text in a listing of an environment, which marks strings and symbols apart.

Every value has these texts, but a value that holds an integer of too many digits cannot be written
(`Value.isWritable`). Whatever writes a value checks this first.
-/

namespace TableLisp

open Text

namespace Value

/-! ## Writing chains -/

mutual

/-- The text of a value, given the text of its atoms. -/
def textWith (paint : Value → String) : Value → String
  | .pair head tail => "(" ++ textWith paint head ++ tailWith paint tail
  | atom => paint atom

/-- The text of a chain of pairs after its first element. -/
def tailWith (paint : Value → String) : Value → String
  | .pair head tail => " " ++ textWith paint head ++ tailWith paint tail
  | .nil => ")"
  | atom => " . " ++ paint atom ++ ")"

end

/-! ## Plain text -/

/-- The text of an atom; a pair is no atom and has none. -/
def atomText : Value → String
  | .nil => "()"
  | .bool b => if b then "#t" else "#f"
  | .int n => Numeral.text n
  | .str text => "\"" ++ text ++ "\""
  | .sym name => name
  | .closure _ formals => "#<lambda (" ++ " ".intercalate formals ++ ")>"
  | .primitive _ op => "#<primitive " ++ op.name ++ ">"
  | .pair _ _ => ""

/-- The text of a value, as a session shows it. -/
def text (v : Value) : String :=
  textWith atomText v

/-- Whether a value can be written: none of its integers is too long. -/
def isWritable : Value → Bool
  | .int n => Numeral.isWritable n
  | .pair head tail => head.isWritable && tail.isWritable
  | _ => true

/-! ## Colours -/

end Value

/-- The kinds of atoms that are shown in colour. -/
structure Palette where
  symbols : Bool := true
  strings : Bool := true
  numbers : Bool := true
  procedures : Bool := true
  specialForms : Bool := true
  deriving DecidableEq, Repr

namespace Palette

/-- The names under which the kinds are switched on and off. -/
def optionNames : List String :=
  ["color_symbols", "color_strings", "color_numbers", "color_procedures", "color_special_forms"]

/-- The palette of some options; what they do not mention is on. -/
def ofOptions (options : String → Option Bool) : Palette :=
  let isOn := fun name => (options name).getD true
  { symbols := isOn "color_symbols"
    strings := isOn "color_strings"
    numbers := isOn "color_numbers"
    procedures := isOn "color_procedures"
    specialForms := isOn "color_special_forms" }

/-- The colour of an atom, as the number of a terminal's graphic rendition. The name of a special
form falls back to the colour of symbols, and truth values share that of numbers. -/
def colour? (palette : Palette) : Value → Option Nat
  | .sym name =>
    if (SpecialForm.ofName? name).isSome && palette.specialForms then some 90
    else if palette.symbols then some 94 else none
  | .str _ => if palette.strings then some 32 else none
  | .bool _ | .int _ => if palette.numbers then some 33 else none
  | .closure _ _ | .primitive _ _ => if palette.procedures then some 95 else none
  | .nil | .pair _ _ => none

/-- The text of an atom between the codes that switch its colour on and off. -/
def paint (palette : Palette) (atom : Value) : String :=
  match palette.colour? atom with
  | some n => "\x1b[" ++ Nat.repr n ++ "m" ++ atom.atomText ++ "\x1b[0m"
  | none => atom.atomText

end Palette

namespace Value

/-- The text of a value with the atoms of a palette in colour. -/
def coloured (palette : Palette) (v : Value) : String :=
  textWith palette.paint v

/-! ## Listings -/

/-- The text of a value in a listing of an environment. -/
def inspect : Value → String
  | .nil => "Nil"
  | .bool b => if b then "True" else "False"
  | .str text => Quoted.encode text
  | .sym name => "Symbol(" ++ Quoted.encode name ++ ")"
  | v => v.text

/-! ## Equations -/

theorem text_pair (head tail : Value) :
    (pair head tail).text = "(" ++ head.text ++ tailWith atomText tail := by
  simp [text, textWith]

theorem text_sym (name : String) : (sym name).text = name := by
  simp [text, textWith, atomText]

end Value

end TableLisp

import TableLisp.Value.Printer

/-!
# Tables for display

The way back from a value to rows of text. A value is shown as a flat list of rows
(`displayRows`), in which the rows of groups stand in the place of their group, or as named groups
(`displayGroups`). Every field that a row lacks is shown as an empty text. What cannot be written
cannot be shown, and what is no list of rows cannot either; the first such part of a table decides.
-/

namespace TableLisp

open Text

/-- Why a value cannot be shown as a table. -/
inductive DisplayError
  /-- A list of rows ends in something that is not `nil`. -/
  | notRows (terminal : Value)
  /-- A list of groups ends in something that is not `nil`. -/
  | notGroups
  /-- A field holds an integer that cannot be written. -/
  | numeralTooLong
  deriving DecidableEq, Repr

/-- The wording of an error; a numeral that is too long has none. -/
def DisplayError.message? : DisplayError → Option String
  | notRows terminal =>
    if terminal.isWritable then some ("Expected a list of rows, but got: " ++ terminal.text)
    else none
  | notGroups => some "Unexpected grouped value structure"
  | numeralTooLong => none

/-! ## Fields -/

namespace Value

def displayText : Value → Except DisplayError String
  | .nil => .ok ""
  | .bool b => .ok (if b then "true" else "false")
  | .str text => .ok text
  | .sym name => .ok name
  | v => if v.isWritable then .ok v.text else .error .numeralTooLong

/-- The first value that an association list has for a symbol. What the list ends in does not
matter. -/
def field? (name : String) : Value → Option Value
  | .pair (.pair key v) rest => if key = .sym name then some v else field? name rest
  | .pair _ rest => field? name rest
  | _ => none

/-- The text of a field of a row, if the row has the field. -/
def fieldText? (row : Value) (name : String) : Except DisplayError (Option String) :=
  match row with
  | .pair _ fields => (fields.field? name).mapM displayText
  | _ => .ok none

/-- A row of a table that is in fact a named group of rows. -/
def isGroup : Value → Bool
  | .pair (.str _) _ => true
  | _ => false

/-- A table whose first row is a named group. -/
def isGrouped : Value → Bool
  | .pair entry _ => entry.isGroup
  | _ => false

end Value

/-- An amount as shown: with the sign of the currency if it is an integer, and else as it is. -/
def amountText (text : String) : String :=
  match Numeral.readInteger? text.toList with
  | some n => "¥" ++ Numeral.text n
  | none => text

/-! ## Rows -/

structure DisplayRow where
  date : String
  amount : String
  category : String
  account : String
  memo : String
  deriving DecidableEq, Repr

def DisplayRow.ofValue (row : Value) : Except DisplayError DisplayRow := do
  let text := fun name => (row.fieldText? name).map (·.getD "")
  let date ← text "date"
  let amount ← text "amount"
  let category ← text "category"
  let account ← text "account"
  let memo ← text "memo"
  return ⟨date, if amount.isEmpty then "" else amountText amount, category, account, memo⟩

/-- The rows of a table, groups flattened. -/
def displayRows : Value → Except DisplayError (List DisplayRow)
  | .pair (.pair (.str _) rows) rest => do
    let first ← displayRows rows
    let later ← displayRows rest
    return first ++ later
  | .pair row rest => do
    let first ← DisplayRow.ofValue row
    let later ← displayRows rest
    return first :: later
  | .nil => .ok []
  | terminal => .error (.notRows terminal)

structure DisplayGroup where
  name : String
  rows : List DisplayRow
  deriving DecidableEq, Repr

/-- The named groups of a table. Rows outside a group are left out. -/
def displayGroups : Value → Except DisplayError (List DisplayGroup)
  | .pair (.pair (.str name) rows) rest => do
    let first ← displayRows rows
    let later ← displayGroups rest
    return ⟨name, first⟩ :: later
  | .pair _ rest => displayGroups rest
  | .nil => .ok []
  | _ => .error .notGroups

end TableLisp

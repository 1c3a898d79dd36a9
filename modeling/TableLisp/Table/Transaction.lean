import TableLisp.Value.Printer

/-!
# Transactions

A transaction as a record, and the value that a program sees: a row is a pair of an identifier and
an association list of the fields, and a table is the list of its rows, numbered from one.
-/

namespace TableLisp

open Text

structure Date where
  year : Nat
  month : Nat
  day : Nat
  deriving DecidableEq, Repr

/-- Year, month and day with dashes, filled up with zeros. -/
def Date.text (date : Date) : String :=
  Numeral.padded 4 date.year ++ "-" ++ Numeral.padded 2 date.month ++ "-" ++
    Numeral.padded 2 date.day

/-- A transaction; the amount is in minor units. -/
structure Transaction where
  date : Date
  amount : Int
  category : String
  account : String
  memo : Option String
  deriving DecidableEq, Repr

namespace Transaction

def rowName (id : Int) : String :=
  "ID-" ++ Numeral.padded 3 id

/-- The row of a transaction. A missing memo is an empty one. -/
def toRow (id : Int) (tx : Transaction) : Value :=
  .pair (.sym (rowName id)) (.ofList [
    .pair (.sym "date") (.str tx.date.text),
    .pair (.sym "amount") (.int tx.amount),
    .pair (.sym "category") (.str tx.category),
    .pair (.sym "account") (.str tx.account),
    .pair (.sym "memo") (.str (tx.memo.getD ""))])

/-- The rows of transactions, numbered on from `id`. -/
def rowsFrom (id : Nat) : List Transaction → List Value
  | [] => []
  | tx :: rest => tx.toRow id :: rowsFrom (id + 1) rest

def table (transactions : List Transaction) : Value :=
  .ofList (rowsFrom 1 transactions)

end Transaction

end TableLisp

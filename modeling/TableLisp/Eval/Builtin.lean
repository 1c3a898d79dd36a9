import TableLisp.Eval.Basic

/-!
# Primitives

What the primitives do with their arguments. All but one are functions on values. `group-by` calls
a procedure on every row, so it runs as an evaluation, and takes the way of calling as an
argument; the grouping itself (`groupRows`) is a function on the rows with their keys.
-/

namespace TableLisp

open Text

namespace Builtin

/-- The first pair on an association list whose head equals the key, or `nil` if there is none. -/
def associate (key : Value) : Value → Except EvalError Value
  | .pair (.pair k v) rest =>
    if k.isEqual key then .ok (.pair k v) else associate key rest
  | .pair _ rest => associate key rest
  | .nil => .ok .nil
  | _ => .error .notAssociation

/-! ## Grouping -/

/-- The text of a grouping key. An integer that cannot be written has none. -/
def keyText : Value → Except EvalError String
  | .str text => .ok text
  | .sym name => .ok name
  | .int n => if Numeral.isWritable n then .ok (Numeral.text n) else .error (.notKey (.int n))
  | v => .error (.notKey v)

/-- The distinct keys in order of first appearance, each with its rows in their order. -/
def groupRows (rows : List (String × Value)) : List (String × List Value) :=
  (rows.map Prod.fst).eraseDups.map fun key =>
    (key, (rows.filter (·.1 == key)).map Prod.snd)

/-- The value of a grouping: a list with one list for each key, headed by the key. -/
def groupsValue (groups : List (String × List Value)) : Value :=
  .ofList (groups.map fun (key, rows) => .pair (.str key) (.ofList rows))

/-- Finds the key of every row by a call, and stops at the first row that fails to yield one. -/
def keyRows (call : Value → Eval Value) : List Value → Eval (List (String × Value))
  | [] => pure []
  | row :: rest => do
    let key ← Eval.ofExcept (keyText (← call row))
    return (key, row) :: (← keyRows call rest)

/-- Groups the rows of a table by the keys that a procedure yields for them. -/
def groupTable (call : Value → Value → Eval Value) (table keyFunction : Value) : Eval Value := do
  if !keyFunction.isProcedure then throw (.notKeyFunction keyFunction)
  match table.toList? with
  | none => throw (.notList .groupBy table)
  | some rows => return groupsValue (groupRows (← keyRows (call keyFunction) rows))

/-! ## Running a primitive -/

/-- Runs a primitive on its arguments. `call` applies a procedure to one argument. -/
def run (call : Value → Value → Eval Value) (op : Builtin) (args : List Value) : Eval Value :=
  match op, args with
  | .cons, [head, tail] => pure (.pair head tail)
  | .car, [.pair head _] => pure head
  | .car, [v] => throw (.notPair .car v)
  | .cdr, [.pair _ tail] => pure tail
  | .cdr, [v] => throw (.notPair .cdr v)
  | .isNull, [v] => pure (.bool (v matches .nil))
  | .equal, [a, b] => pure (.bool (a.isEqual b))
  | .assoc, [key, list] => Eval.ofExcept (associate key list)
  | .groupBy, [table, keyFunction] => groupTable call table keyFunction
  | op, args => throw (.arity op.name (.exactly op.arity) args.length)

end Builtin

end TableLisp

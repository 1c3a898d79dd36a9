import TableLisp.Eval.Error
import TableLisp.Guard
import TableLisp.Store

/-!
# Evaluations

An evaluation reads and changes the state, the store together with the depth guard, and ends with a
value or an error. What it did to the state before it failed stays done.
-/

namespace TableLisp

/-- Everything that an evaluation can change. -/
structure State where
  store : Store
  guard : Guard
  deriving Repr

abbrev Eval := EStateM EvalError State

namespace Eval

@[inline] def ofExcept : Except EvalError α → Eval α
  | .ok a => pure a
  | .error e => throw e

/-- Changes the store by something that also yields a result. -/
@[inline] def onStore (f : Store → α × Store) : Eval α :=
  modifyGet fun s =>
    let (a, store) := f s.store
    (a, { s with store })

def lookup (frame : FrameId) (name : String) : Eval Value := do
  match (← get).store.lookup? frame name with
  | some v => pure v
  | none => throw (.unbound name)

def define (frame : FrameId) (name : String) (v : Value) : Eval Unit :=
  onStore fun store => ((), store.define frame name v)

/-- Defines what a value names, which has to be a symbol or a string. -/
def defineNamed (frame : FrameId) (key v : Value) : Eval Unit :=
  match key with
  | .sym name | .str name => define frame name v
  | key => throw (.notName key)

/-- Runs an evaluation as one level of nesting: counted while it runs, also when it fails, and
refused at the limit. -/
@[inline] def nested (x : Eval α) : Eval α := fun s =>
  match s.guard.enter? with
  | none => .error (.tooDeep s.guard.limit) s
  | some guard =>
    match x { s with guard } with
    | .ok a s => .ok a { s with guard := s.guard.leave }
    | .error e s => .error e { s with guard := s.guard.leave }

end Eval

end TableLisp

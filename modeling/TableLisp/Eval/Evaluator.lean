import TableLisp.Eval.Builtin

/-!
# The evaluator

A constant evaluates to itself, a symbol to its binding, and a list to what its special form or
the call of its head yields. Every form that is evaluated counts one level of nesting; the
recursion is on the levels that are left, which the depth guard counts as well.

The parts of a form are evaluated through a parameter, so that special forms and calls are stated
without recursion: `evalWith` ties them to one more level, and `evaluate` starts with the room that
the guard leaves.
-/

namespace TableLisp

abbrev Evaluator := Form → FrameId → Eval Value

/-! ## Sequences -/

def evalAll (eval : Evaluator) (frame : FrameId) : List Form → Eval (List Value)
  | [] => pure []
  | form :: rest => do
    let v ← eval form frame
    return v :: (← evalAll eval frame rest)

/-- Evaluates forms in order and yields the last value, or `last` if there are none. -/
def evalBody (eval : Evaluator) (frame : FrameId) (last : Value) : List Form → Eval Value
  | [] => pure last
  | form :: rest => do
    let v ← eval form frame
    evalBody eval frame v rest

/-! ## Calls -/

/-- Calls a closure: its parameters are bound in a new frame inside the one it was made in, and its
body runs there. -/
def applyClosure (eval : Evaluator) (id : Nat) (formals : List String) (args : List Value) :
    Eval Value := do
  if args.length ≠ formals.length then
    throw (.arity "lambda" (.exactly formals.length) args.length)
  match (← get).store.codes[id]? with
  | none => pure .nil
  | some code =>
    let frame ← Eval.onStore (·.newFrame (formals.zip args) (some code.frame))
    evalBody eval frame .nil code.body

/-- Calls a value, where `call` is what a primitive may call in turn. -/
def applyWith (eval : Evaluator) (call : Value → Value → Eval Value) (fn : Value)
    (args : List Value) : Eval Value :=
  match fn with
  | .closure id formals => applyClosure eval id formals args
  | .primitive _ op => op.run call args
  | v => throw (.notCallable v)

/-- Calls a value. The frame of the caller is known to the call and has no part in it. A primitive
calls with one argument; called so, no primitive calls anything, and two layers cover every call. -/
def apply (eval : Evaluator) (fn : Value) (args : List Value) (_caller : FrameId) : Eval Value :=
  applyWith eval (fun fn arg => applyWith eval (fun _ v => pure v) fn [arg]) fn args

/-! ## Special forms -/

/-- The names in a parameter list. `seen` holds the names before. -/
def parameterNames (seen : List String) : List Form → Except EvalError (List String)
  | [] => .ok seen.reverse
  | .sym name :: rest =>
    if seen.contains name then .error (.duplicateParameter name)
    else parameterNames (name :: seen) rest
  | _ => .error .parameterName

def parameters : Form → Except EvalError (List String)
  | .const .nil => .ok []
  | .list items => parameterNames [] items
  | _ => .error .parameterList

def evalSpecial (eval : Evaluator) (frame : FrameId) (form : SpecialForm) (operands : List Form) :
    Eval Value :=
  match form, operands with
  | .quote, [form] => pure form.toValue
  | .define, [target, form] =>
    match target with
    | .sym name => do
      let v ← eval form frame
      Eval.define frame name v
      pure v
    | _ => throw .definitionTarget
  | .lambda, params :: first :: rest => do
    let formals ← Eval.ofExcept (parameters params)
    Eval.onStore (·.newClosure formals ⟨first :: rest, frame⟩)
  | .conditional, [test, yes, no] => do
    if (← eval test frame).isTruthy then eval yes frame else eval no frame
  | .quote, operands => throw (.arity "quote" (.exactly 1) operands.length)
  | .define, operands => throw (.arity "define" (.exactly 2) operands.length)
  | .lambda, operands => throw (.arity "lambda" (.atLeast 2) operands.length)
  | .conditional, operands => throw (.arity "if" (.exactly 3) operands.length)

/-! ## Forms -/

/-- The special form that a list with this head is. -/
def specialHead? : Form → Option SpecialForm
  | .sym name => SpecialForm.ofName? name
  | _ => none

/-- Evaluates a form, given how to evaluate its parts. -/
def evalParts (eval : Evaluator) (form : Form) (frame : FrameId) : Eval Value :=
  match form with
  | .const v => pure v
  | .sym name => Eval.lookup frame name
  | .dotted _ _ => throw .dottedCall
  | .list [] => pure .nil
  | .list (head :: operands) =>
    match specialHead? head with
    | some form => evalSpecial eval frame form operands
    | none => do
      let fn ← eval head frame
      let args ← evalAll eval frame operands
      apply eval fn args frame

/-- Evaluates a form with room for some nested evaluations. Without room the guard refuses. -/
def evalWith : Nat → Evaluator
  | 0, _, _ => Eval.nested (pure .nil)
  | room + 1, form, frame => Eval.nested (evalParts (evalWith room) form frame)

def evaluate (form : Form) (frame : FrameId) : Eval Value := fun s =>
  evalWith s.guard.room form frame s

def applyValue (fn : Value) (args : List Value) (caller : FrameId) : Eval Value := fun s =>
  apply (evalWith s.guard.room) fn args caller s

end TableLisp

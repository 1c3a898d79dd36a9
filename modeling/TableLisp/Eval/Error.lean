import TableLisp.Value.Printer

/-!
# Evaluation errors

The ways in which an evaluation fails. An error keeps the value that caused it; its wording shows
the value as printed. If the value cannot be written, the error cannot be worded, and it is raised
as a numeral that is too long instead, which is an error of a kind of its own and has no wording.
-/

namespace TableLisp

open Text

inductive Arity
  | exactly (n : Nat)
  | atLeast (n : Nat)
  deriving DecidableEq, Repr

def Arity.text : Arity → String
  | exactly n => n.repr
  | atLeast n => "at least " ++ n.repr

inductive EvalError
  /-- A name that no frame binds. -/
  | unbound (name : String)
  /-- A wrong number of arguments. -/
  | arity (callee : String) (wanted : Arity) (got : Nat)
  /-- A primitive that takes a pair got something else. -/
  | notPair (op : Builtin) (v : Value)
  /-- A primitive that takes a list got something else. -/
  | notList (op : Builtin) (v : Value)
  /-- The search of an association list ran into a terminal that is not `nil`. -/
  | notAssociation
  /-- The key function of a grouping is no procedure. -/
  | notKeyFunction (v : Value)
  /-- The key function of a grouping returned something without a key text. -/
  | notKey (v : Value)
  /-- Something that is no procedure stands in operator position. -/
  | notCallable (v : Value)
  /-- A dotted list stands where a call would. -/
  | dottedCall
  /-- The target of a definition is no symbol. -/
  | definitionTarget
  /-- The parameters of a lambda are no list. -/
  | parameterList
  /-- A parameter of a lambda is no symbol. -/
  | parameterName
  /-- A parameter of a lambda occurs twice. -/
  | duplicateParameter (name : String)
  /-- Something that is no name was to be defined. -/
  | notName (v : Value)
  /-- The evaluation nests deeper than the limit. -/
  | tooDeep (limit : Int)
  deriving DecidableEq, Repr

namespace EvalError

inductive Kind
  | unbound | arity | type | notCallable | malformed | overflow | numeralTooLong
  deriving DecidableEq, Repr

/-- The value that an error is about. -/
def culprit? : EvalError → Option Value
  | notPair _ v | notList _ v | notKeyFunction v | notKey v | notCallable v | notName v => some v
  | _ => none

/-- Whether an error can be worded. -/
def isWritable (e : EvalError) : Bool :=
  e.culprit?.all Value.isWritable

def wordedKind : EvalError → Kind
  | unbound _ => .unbound
  | arity .. => .arity
  | notPair .. | notList .. | notAssociation | notKeyFunction _ | notKey _ => .type
  | notCallable _ => .notCallable
  | dottedCall | definitionTarget | parameterList | parameterName | duplicateParameter _
  | notName _ => .malformed
  | tooDeep _ => .overflow

/-- The kind of an error as it is raised. -/
def kind (e : EvalError) : Kind :=
  if e.isWritable then e.wordedKind else .numeralTooLong

theorem kind_of_not_isWritable {e : EvalError} {v : Value} (h : e.culprit? = some v)
    (hv : v.isWritable = false) : e.kind = .numeralTooLong := by
  rw [kind, isWritable, h, Option.all_some, hv]
  rfl

/-- The wording of a value that was to be a name, where truth values are spelled out. -/
def nameText : Value → String
  | .bool b => (Value.bool b).inspect
  | v => v.text

/-- The wording of an error, if it can be worded. -/
def message : EvalError → String
  | unbound name => "Unbound symbol: " ++ name
  | arity callee wanted got =>
    callee ++ ": expected " ++ wanted.text ++ " argument(s), got " ++ got.repr
  | notPair op v => op.name ++ " requires a pair, got " ++ v.text
  | notList op v => op.name ++ " requires a proper list, got " ++ v.text
  | notAssociation => "assoc requires a proper list"
  | notKeyFunction v => "group-by requires a procedure, got " ++ v.text
  | notKey v => "group-by key must be string, symbol, or number, got " ++ v.text
  | notCallable v => "Cannot apply non-procedure " ++ v.text
  | dottedCall => "A dotted list cannot be evaluated as a call"
  | definitionTarget => "define requires a symbol as first argument"
  | parameterList => "lambda requires a parameter list"
  | parameterName => "lambda parameters must be symbols"
  | duplicateParameter name => "Duplicate lambda parameter: " ++ name
  | notName v => "Cannot define " ++ nameText v ++ " as a symbol"
  | tooDeep limit => "Maximum evaluation depth of " ++ Numeral.text limit ++ " exceeded"

end EvalError

end TableLisp

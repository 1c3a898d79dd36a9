import TableLisp.SpecialForm
import TableLisp.Value.Basic

/-!
# Signatures

How the special forms and the primitives are called, for hovers, completions and signature help, and
the one name that is bound before a program runs.
-/

namespace TableLisp

/-- The name of something that can be called, and its parameters as written. -/
structure Signature where
  name : String
  parameters : List String
  deriving DecidableEq, Repr

namespace Signature

def label (signature : Signature) : String :=
  "(" ++ " ".intercalate (signature.name :: signature.parameters) ++ ")"

def ofSpecialForm (form : SpecialForm) : Signature :=
  { name := form.name
    parameters :=
      match form with
      | .quote => ["expr"]
      | .define => ["name", "value"]
      | .lambda => ["(params)", "body", "..."]
      | .conditional => ["condition", "then", "else"] }

def ofBuiltin (op : Builtin) : Signature :=
  { name := op.name
    parameters :=
      match op with
      | .cons => ["head", "tail"]
      | .car | .cdr => ["pair"]
      | .isNull => ["value"]
      | .equal => ["a", "b"]
      | .assoc => ["key", "alist"]
      | .groupBy => ["rows", "key-fn"] }

def specialForms : List Signature :=
  SpecialForm.all.map ofSpecialForm

def builtins : List Signature :=
  Builtin.all.map ofBuiltin

def find? (name : String) : Option Signature :=
  (specialForms ++ builtins).find? (·.name == name)

end Signature

/-- The name that is bound to the table, and what a hover says about it. -/
def tableHover : String × String :=
  ("table",
    "table: the transaction rows, ((ID-001 . ((date . \"...\") (amount . n) ...)) ...)")

end TableLisp

/-!
# Special forms

The four names that turn a list into something else than a call. They are recognised by name alone,
so no binding can shadow them.
-/

namespace TableLisp

inductive SpecialForm
  | quote | define | lambda | conditional
  deriving DecidableEq, Repr

namespace SpecialForm

def name : SpecialForm → String
  | quote => "quote"
  | define => "define"
  | lambda => "lambda"
  | conditional => "if"

/-- All special forms, in the order in which an editor offers them. -/
def all : List SpecialForm :=
  [quote, define, lambda, conditional]

def ofName? (name : String) : Option SpecialForm :=
  all.find? fun form => form.name == name

theorem ofName?_name (form : SpecialForm) : ofName? form.name = some form := by
  cases form <;> decide

end SpecialForm

end TableLisp

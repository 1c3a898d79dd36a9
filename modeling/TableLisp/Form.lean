import TableLisp.Value.Printer

/-!
# Forms

What the reader makes of source text, and what the evaluator takes. A form is a constant, a symbol,
a list, or a list with a dot before its tail. A dotted list stays apart from the list that its tail
might merge into, so that the text of a form reads as the same form.

- `Form.text`: the canonical source text.
- `Form.toValue`: the value that a quoted form stands for.
-/

namespace TableLisp

inductive Form
  | const (v : Value)
  | sym (name : String)
  | list (items : List Form)
  | dotted (items : List Form) (tail : Form)
  deriving Inhabited, Repr

namespace Form

/-- The form that a quote mark before another form stands for. -/
def quoted (form : Form) : Form :=
  .list [.sym SpecialForm.quote.name, form]

/-! ## Equality -/

mutual

def decEq : (a b : Form) → Decidable (a = b)
  | .const v, .const w => decidable_of_iff (v = w) (by simp)
  | .sym x, .sym y => decidable_of_iff (x = y) (by simp)
  | .list xs, .list ys =>
    match decEqAll xs ys with
    | isTrue eq => isTrue (by rw [eq])
    | isFalse ne => isFalse (by simp [ne])
  | .dotted xs t, .dotted ys u =>
    match decEqAll xs ys, decEq t u with
    | isTrue eq, isTrue eq' => isTrue (by rw [eq, eq'])
    | isFalse ne, _ => isFalse (by simp [ne])
    | _, isFalse ne => isFalse (by simp [ne])
  | .const _, .sym _ | .const _, .list _ | .const _, .dotted _ _ => isFalse Form.noConfusion
  | .sym _, .const _ | .sym _, .list _ | .sym _, .dotted _ _ => isFalse Form.noConfusion
  | .list _, .const _ | .list _, .sym _ | .list _, .dotted _ _ => isFalse Form.noConfusion
  | .dotted _ _, .const _ | .dotted _ _, .sym _ | .dotted _ _, .list _ =>
    isFalse Form.noConfusion

def decEqAll : (xs ys : List Form) → Decidable (xs = ys)
  | [], [] => isTrue rfl
  | x :: xs, y :: ys =>
    match decEq x y, decEqAll xs ys with
    | isTrue eq, isTrue eq' => isTrue (by rw [eq, eq'])
    | isFalse ne, _ => isFalse (by simp [ne])
    | _, isFalse ne => isFalse (by simp [ne])
  | [], _ :: _ | _ :: _, [] => isFalse (by simp)

end

instance : DecidableEq Form := decEq

/-! ## Source text -/

mutual

def text : Form → String
  | .const v => v.text
  | .sym name => name
  | .list items => "(" ++ textAll items ++ ")"
  | .dotted items tail => "(" ++ textAll items ++ " . " ++ text tail ++ ")"

def textAll : List Form → String
  | [] => ""
  | [form] => text form
  | form :: rest => text form ++ " " ++ textAll rest

end

/-! ## Quotation -/

mutual

/-- The value of a quoted form: lists become chains of pairs, symbols stay symbols. -/
def toValue : Form → Value
  | .const v => v
  | .sym name => .sym name
  | .list items => .ofList (values items)
  | .dotted items tail => .chain (values items) (toValue tail)

def values : List Form → List Value
  | [] => []
  | form :: rest => toValue form :: values rest

end

theorem values_eq_map (forms : List Form) : values forms = forms.map toValue := by
  induction forms with
  | nil => rfl
  | cons form rest ih => simp [values, ih]

/-- The empty list has the text of `nil`. -/
theorem text_list_nil : (list []).text = "()" := by
  simp [text, textAll]

end Form

end TableLisp

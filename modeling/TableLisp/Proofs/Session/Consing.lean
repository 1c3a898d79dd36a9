import TableLisp.Proofs.Eval.Levels
import TableLisp.Proofs.Session.Depth

/-!
# Quotation in terms of `cons`

What a quoted form stands for can be built without quoting lists: `'(a b . c)` is what
`(cons 'a (cons 'b 'c))` yields. `Form.consing` writes the program for any form, down to constants
and quoted symbols. It is a program of calls, so it takes more levels of nesting than the quotation,
which takes one: a level for every cell along a list, on top of the levels of the items
(`Form.consingLevels`).
-/

namespace TableLisp

namespace Form

/-! ## The program -/

mutual

/-- The program that builds with `cons` what a quoted form stands for. -/
def consing : Form → Form
  | .const v => .const v
  | .sym name => .quoted (.sym name)
  | .list items => consingAll items (.const .nil)
  | .dotted items tail => consingAll items (consing tail)

/-- The program that puts what some quoted forms stand for in front of what a program yields. -/
def consingAll : List Form → Form → Form
  | [], last => last
  | item :: rest, last => .list [.sym Builtin.cons.name, consing item, consingAll rest last]

end

mutual

/-- How many levels of nesting the program takes. -/
def consingLevels : Form → Nat
  | .const _ | .sym _ => 1
  | .list items => consingLevelsAll items 1
  | .dotted items tail => consingLevelsAll items (consingLevels tail)

/-- How many levels of nesting it takes if the last program takes `n`. -/
def consingLevelsAll : List Form → Nat → Nat
  | [], n => n
  | item :: rest, n => max (consingLevels item) (consingLevelsAll rest n) + 1

end

/-! ## What it yields -/

section

variable {s : Store} {frame : FrameId} {id : Nat}

/-- One cell: the name of the primitive, the item and the rest share their levels. -/
theorem takes_cons (hcons : s.lookup? frame Builtin.cons.name = some (.primitive id .cons))
    {item rest : Form} {n m : Nat} {head tail : Value}
    (hitem : Eval.Takes n (evaluate item frame) s head s)
    (hrest : Eval.Takes m (evaluate rest frame) s tail s) :
    Eval.Takes (max n m + 1) (evaluate (.list [.sym Builtin.cons.name, item, rest]) frame) s
      (.pair head tail) s := by
  have hargs := Eval.Takes.operands_cons hitem (.operands_cons hrest (.operands_nil frame s))
  have hcell := hargs.call_primitive hcons fun _ => rfl
  have hpos := hitem.pos
  exact hcell.of_eq (by omega)

mutual

theorem takes_consing (hcons : s.lookup? frame Builtin.cons.name = some (.primitive id .cons)) :
    ∀ form : Form,
      Eval.Takes form.consingLevels (evaluate form.consing frame) s form.toValue s
  | .const v => .const v frame s
  | .sym name => .quoted (.sym name) frame s
  | .list items => takes_consingAll hcons items (.const .nil frame s)
  | .dotted items tail => takes_consingAll hcons items (takes_consing hcons tail)

theorem takes_consingAll
    (hcons : s.lookup? frame Builtin.cons.name = some (.primitive id .cons)) :
    ∀ (items : List Form) {last : Form} {n : Nat} {v : Value},
      Eval.Takes n (evaluate last frame) s v s →
      Eval.Takes (consingLevelsAll items n) (evaluate (consingAll items last) frame) s
        (.chain (values items) v) s
  | [], _, _, _, hlast => hlast
  | item :: rest, _, _, _, hlast =>
      takes_cons hcons (takes_consing hcons item) (takes_consingAll hcons rest hlast)

end

end

end Form

/-- **Quotation by `cons`.** Whatever a session has been through, if `cons` is the primitive then
under every limit that covers the levels of the program, the program and the quotation both succeed,
leave the session as it was and yield equal values. -/
theorem quotation_by_cons (store : Store) (limit : Int) (global : FrameId)
    (steps : List Session.Step) (id : Nat) (form : Form) :
    let session := (Session.mk ⟨store, .ofLimit limit⟩ global).perform steps
    session.state.store.lookup? session.global Builtin.cons.name = some (.primitive id .cons) →
    ∀ larger : Int, form.consingLevels ≤ larger →
      ∃ v w, (session.withLimit larger).evalForms [form.consing] =
          (.ok v, session.withLimit larger) ∧
        (session.withLimit larger).evalForms [.quoted form] = (.ok w, session.withLimit larger) ∧
        v.isEqual w = true := by
  intro session hcons larger hlarger
  have hdepth : session.state.guard.depth = 0 := Session.depth_perform rfl steps
  have hroom : form.consingLevels ≤ (session.withLimit larger).state.guard.room := by
    rw [Session.room_withLimit hdepth]
    omega
  have htakes := form.takes_consing hcons
  have hquoted := Eval.Yields.quoted form session.global session.state.store
  refine ⟨form.toValue, form.toValue, ?_, ?_, Value.isEqual_iff.mpr rfl⟩
  · exact Session.evalForms_of_yields htakes.yields hroom
  · exact Session.evalForms_of_yields hquoted (Nat.le_trans htakes.pos hroom)

/-- A dotted list with a list and an empty list in it takes four levels. The session has failed
once, and then the limit was lowered too far. -/
theorem quotation_of_dotted_list :
    let form : Form := .dotted [.list [.sym "a", .const (.str "s")], .list []] (.const (.int 1))
    let session := (Session.start 9).perform [.run "(car 1)", .limit 2]
    form.consing.text = "(cons (cons (quote a) (cons \"s\" ())) (cons () 1))" ∧
      form.consingLevels = 4 ∧
      session.state.store.lookup? session.global "cons" = some (.primitive 0 .cons) ∧
      ∃ v w, (session.withLimit 4).evalForms [form.consing] = (.ok v, session.withLimit 4) ∧
        (session.withLimit 4).evalForms [.quoted form] = (.ok w, session.withLimit 4) ∧
        v.isEqual w = true := by
  intro form session
  have hcons : session.state.store.lookup? session.global Builtin.cons.name =
      some (.primitive 0 .cons) := by decide +kernel
  exact ⟨by decide +kernel, by decide, hcons,
    quotation_by_cons _ 9 0 _ 0 form hcons 4 (by decide)⟩

end TableLisp

import TableLisp.Proofs.Eval.Levels
import TableLisp.Proofs.Session.Definitions
import TableLisp.Proofs.Session.Growth

/-!
# What a recursion along a list costs

A call in the last place of a body is nested like any other: the evaluation that makes it is still
under way while it runs. So a procedure that goes along a list takes levels in proportion to the
list. `Procedure.last` is such a one. Each of its calls evaluates a conditional and in its branch
the next call, which are two levels, and the last one still has to find out that the rest is empty.
All in all `(last xs)` takes three levels more than two for each element, not one less
(`last_at_limit`).
-/

namespace TableLisp

/-! ## The procedure -/

/-- The definition of a procedure that yields the last element of a list. -/
def lastProgram : String :=
  "(define last (lambda (l) (if (null? (cdr l)) (car l) (last (cdr l)))))"

namespace Procedure

/-- What `lastProgram` defines. -/
def last : Procedure where
  name := "last"
  params := ["l"]
  nodup := by decide
  first :=
    .list [.sym SpecialForm.conditional.name,
      .list [.sym Builtin.isNull.name, .list [.sym Builtin.cdr.name, .sym "l"]],
      .list [.sym Builtin.car.name, .sym "l"],
      .list [.sym "last", .list [.sym Builtin.cdr.name, .sym "l"]]]
  rest := []

theorem parse_lastProgram : parse 5 lastProgram.toList = .ok [last.form] := by
  decide +kernel

/-- A program that is the definition of a procedure either fails because of the limit or makes the
closure and binds its name. -/
theorem run_definition {d : Procedure} {code : String} {limit : Int}
    (hparse : parse limit code.toList = .ok [d.form]) {session : Session}
    (hdepth : session.state.guard.depth = 0) {v : Value} (hrun : (session.run code).1 = .ok v) :
    v = .closure session.state.store.codes.size d.params ∧
      (session.run code).2.state.store = d.install session.global session.state.store := by
  -- nothing was refused, so it would be the same under a limit that is surely large enough
  let larger := max session.state.guard.limit (max limit 2)
  have hlarger : parse larger code.toList = .ok [d.form] := parse_ok_of_le (by omega) hparse
  have hroom : 2 ≤ (session.withLimit larger).state.guard.room := by
    rw [Session.room_withLimit hdepth]
    omega
  have hyields := d.yields_form session.global session.state.store
  have hinstalled : (session.withLimit larger).run code = _ :=
    Session.run_of_yields hlarger hyields hroom
  have hle : session.state.guard.limit ≤ larger := by omega
  rcases Session.run_withLimit hle code with hoverflow | ⟨-, hsame⟩
  · rw [hrun] at hoverflow
    exact absurd hoverflow id
  · rw [hsame, hrun] at hinstalled
    obtain ⟨hv, hsession⟩ := Prod.mk.inj hinstalled
    refine ⟨Except.ok.inj hv, ?_⟩
    exact congrArg (fun session : Session => session.state.store) hsession

end Procedure

/-! ## One call after the other -/

/-- Seen from a frame, the closure `id` and the primitives that its body calls go by their names. -/
structure KnowsLast (s : Store) (frame : FrameId) (id : Nat) : Prop where
  self : s.lookup? frame "last" = some (.closure id ["l"])
  primitives : ∀ op ∈ [Builtin.isNull, .cdr, .car],
    ∃ n, s.lookup? frame op.name = some (.primitive n op)

/-- The closure `id` is the procedure, made in a frame that knows it. -/
structure HasLast (s : Store) (global : FrameId) (id : Nat) : Prop
    extends KnowsLast s global id where
  code : s.codes[id]? = some (Procedure.last.code global)
  lt : global < s.frames.size

variable {s : Store} {frame global : FrameId} {id : Nat} {v : Value} {vs : List Value}

namespace KnowsLast

variable (h : KnowsLast s frame id)

include h

theorem takes_primitive {op : Builtin} (hop : op ∈ [Builtin.isNull, .cdr, .car]) {operand : Form}
    {n : Nat} {w : Value} (hoperand : Eval.Takes n (evaluate operand frame) s v s)
    (hrun : ∀ call, op.run call [v] = pure w) :
    Eval.Takes (n + 1) (evaluate (.list [.sym op.name, operand]) frame) s w s := by
  obtain ⟨m, hbound⟩ := h.primitives op hop
  have hargs := Eval.Takes.operands_cons hoperand (.operands_nil frame s)
  have hpos := hoperand.pos
  exact (hargs.call_primitive hbound hrun).of_eq (by omega)

theorem takes_rest (hlist : s.lookup? frame "l" = some (.ofList (v :: vs))) :
    Eval.Takes 2 (evaluate (.list [.sym Builtin.cdr.name, .sym "l"]) frame) s (.ofList vs) s :=
  h.takes_primitive (by decide) (.sym hlist) fun _ => rfl

theorem takes_first (hlist : s.lookup? frame "l" = some (.ofList (v :: vs))) :
    Eval.Takes 2 (evaluate (.list [.sym Builtin.car.name, .sym "l"]) frame) s v s :=
  h.takes_primitive (by decide) (.sym hlist) fun _ => rfl

theorem takes_test (hlist : s.lookup? frame "l" = some (.ofList (v :: vs))) :
    Eval.Takes 3 (evaluate (.list [.sym Builtin.isNull.name,
      .list [.sym Builtin.cdr.name, .sym "l"]]) frame) s (.bool vs.isEmpty) s :=
  h.takes_primitive (by decide) (h.takes_rest hlist) fun _ => by cases vs <;> rfl

/-- For a list of one element the body takes four levels: the test takes the most. -/
theorem takes_body_single (hlist : s.lookup? frame "l" = some (.ofList [v])) :
    Eval.Takes 4 (evaluate Procedure.last.first frame) s v s :=
  (h.takes_test hlist).conditional (h.takes_first hlist)

/-- Otherwise it is two levels more than the next call, which is nested in a branch. -/
theorem takes_body_cons {w last : Value} {n : Nat} {t : Store} (hn : 2 ≤ n)
    (hlist : s.lookup? frame "l" = some (.ofList (v :: w :: vs)))
    (hnext : Eval.Takes n (applyValue (.closure id ["l"]) [.ofList (w :: vs)] frame) s last t) :
    Eval.Takes (n + 2) (evaluate Procedure.last.first frame) s last t := by
  have hargs := Eval.Takes.operands_cons (h.takes_rest hlist) (.operands_nil frame s)
  have hcall := Eval.Takes.call rfl (.sym h.self) hargs hnext
  have hbody : Eval.Takes _ (evaluate Procedure.last.first frame) s last t :=
    (h.takes_test hlist).conditional hcall
  exact hbody.of_eq (by omega)

end KnowsLast

namespace HasLast

theorem newFrame (h : HasLast s global id) (bindings : List (String × Value))
    (outer : Option FrameId) : HasLast (s.newFrame bindings outer).2 global id := by
  have hlookup := (s.keeps_newFrame bindings outer).lookup?_eq h.lt
  refine ⟨⟨?_, fun op hop => ?_⟩, h.code, ?_⟩
  · rw [hlookup]
    exact h.self
  · rw [hlookup]
    exact h.primitives op hop
  · exact Nat.lt_of_lt_of_le h.lt (s.extends_newFrame bindings outer).frames

/-- The parameter hides none of the names, so a call knows them as well. -/
theorem knows_call (h : HasLast s global id) (list : Value) :
    KnowsLast (s.newFrame [("l", list)] (some global)).2 s.frames.size id where
  self := (Store.lookup?_newFrame h.lt _ _).trans (h.newFrame _ _).self
  primitives op hop := by
    obtain ⟨n, hn⟩ := (h.newFrame [("l", list)] (some global)).primitives op hop
    have hparameter : [("l", list)].lookup op.name = none := by cases op <;> rfl
    exact ⟨n, by rw [Store.lookup?_newFrame h.lt, hparameter, Option.none_or, hn]⟩

/-- A call takes two levels for every element and two more. -/
theorem takes_call : ∀ {vs : List Value} (hvs : vs ≠ []) {s : Store},
    HasLast s global id → ∀ caller : FrameId, ∃ t,
      Eval.Takes (2 * vs.length + 2) (applyValue (.closure id ["l"]) [.ofList vs] caller) s
        (vs.getLast hvs) t
  | [v], _, s, h, caller => by
      have hlist := Store.lookup?_newFrame h.lt [("l", .ofList [v])] "l"
      have hbody := (h.knows_call _).takes_body_single hlist
      exact ⟨_, .closure h.code rfl hbody.body⟩
  | v :: w :: vs, _, s, h, caller => by
      have hlist := Store.lookup?_newFrame h.lt [("l", .ofList (v :: w :: vs))] "l"
      obtain ⟨t, hnext⟩ := takes_call (List.cons_ne_nil w vs) (h.newFrame _ _) s.frames.size
      have hbody := (h.knows_call _).takes_body_cons (by omega) hlist hnext
      exact ⟨t, .closure h.code rfl hbody.body⟩

/-- Where the definition has been evaluated, the session has the procedure from then on. -/
theorem of_run {session later : Session} (hdepth : session.state.guard.depth = 0) {last : Value}
    (hrun : (session.run lastProgram).1 = .ok last)
    (hlater : (session.run lastProgram).2.Extends later)
    (hself : later.state.store.lookup? later.global "last" = some last)
    (hprimitives : ∀ op ∈ [Builtin.isNull, .cdr, .car],
      ∃ n, later.state.store.lookup? later.global op.name = some (.primitive n op)) :
    HasLast later.state.store later.global session.state.store.codes.size ∧
      last = .closure session.state.store.codes.size ["l"] := by
  obtain ⟨rfl, hstore⟩ := Procedure.run_definition Procedure.parse_lastProgram hdepth hrun
  have hglobal : later.global = session.global :=
    hlater.global.trans (Session.extends_run session lastProgram).global
  refine ⟨⟨⟨hself, hprimitives⟩, hlater.state.codes _ _ ?_, Store.lt_of_lookup? hself⟩, rfl⟩
  rw [hstore, Procedure.codes_install, hglobal, Array.getElem?_push_size]

end HasLast

/-! ## The program -/

/-- What `(last xs)` takes. -/
theorem takes_last {s : Store} {global : FrameId} {id : Nat} (h : HasLast s global id)
    {vs : List Value} (hvs : vs ≠ []) (hlist : s.lookup? global "xs" = some (.ofList vs)) :
    ∃ t, Eval.Takes (2 * vs.length + 3) (evaluate (.list [.sym "last", .sym "xs"]) global) s
      (vs.getLast hvs) t := by
  obtain ⟨t, hcall⟩ := h.takes_call hvs global
  have hargs := Eval.Takes.operands_cons (.sym hlist) (.operands_nil global s)
  have hprogram := Eval.Takes.call rfl (.sym h.self) hargs hcall
  exact ⟨t, hprogram.of_eq (by omega)⟩

/-- **The cost of a recursion.** A session has evaluated the definition, whatever it has been
through before and since, and the procedure and the primitives are still found under their names.
Then the last element of a list is found under every limit that allows three levels more than two
for each element, and under no smaller one. Either way the counter is at zero afterwards and no
frame has changed. -/
theorem last_at_limit (store : Store) (limit : Int) (global : FrameId)
    (before after : List Session.Step) (last : Value) (vs : List Value) (hvs : vs ≠ []) :
    let start := (Session.mk ⟨store, .ofLimit limit⟩ global).perform before
    let session := (start.run lastProgram).2.perform after
    (start.run lastProgram).1 = .ok last →
    session.state.store.lookup? session.global "last" = some last →
    (∀ op ∈ [Builtin.isNull, .cdr, .car],
      ∃ id, session.state.store.lookup? session.global op.name = some (.primitive id op)) →
    session.state.store.lookup? session.global "xs" = some (.ofList vs) →
    ∀ allowed : Int, 1 ≤ allowed →
      let final := (session.withLimit allowed).run "(last xs)"
      (2 * vs.length + 3 ≤ allowed → final.1 = .ok (vs.getLast hvs)) ∧
        (allowed < 2 * vs.length + 3 → final.1 = .error (.eval (.tooDeep allowed))) ∧
        final.2.state.guard.depth = 0 ∧ session.state.store.Keeps final.2.state.store := by
  intro start session hrun hself hprimitives hlist allowed hallowed final
  have hdepth : start.state.guard.depth = 0 := Session.depth_perform rfl before
  have hlater := (start.run lastProgram).2.extends_perform after
  obtain ⟨hlast, rfl⟩ := HasLast.of_run hdepth hrun hlater hself hprimitives
  let limited := session.withLimit allowed
  obtain ⟨t, htakes⟩ : ∃ t, Eval.Takes (2 * vs.length + 3)
      (evaluate (.list [.sym "last", .sym "xs"]) limited.global) limited.state.store
      (vs.getLast hvs) t := takes_last hlast hvs hlist
  have hparse : parse 1 "(last xs)".toList = .ok [.list [.sym "last", .sym "xs"]] := by
    decide +kernel
  obtain ⟨hyields, hrefused⟩ := Session.run_of_takes (parse_ok_of_le hallowed hparse) htakes
  have hzero : session.state.guard.depth = 0 := by
    refine Session.depth_perform ?_ after
    rw [Session.guard_run, hdepth]
  rw [Session.room_withLimit hzero] at hyields hrefused
  by_cases henough : 2 * vs.length + 3 ≤ allowed
  · have hfinal : final = _ := hyields (by omega)
    rw [hfinal]
    exact ⟨fun _ => rfl, fun hless => by omega, hzero, htakes.keeps⟩
  · obtain ⟨u, hkeeps, hfinal : final = _⟩ := hrefused (by omega)
    rw [hfinal]
    exact ⟨fun hmore => absurd hmore henough, fun _ => rfl, hzero, hkeeps⟩

/-- Two elements take seven levels. The call has failed before, once for the name and once for the
limit, and outside the procedure its parameter means something else. -/
theorem last_of_two :
    let start := (Session.start 9).perform [.run "(last xs)", .limit 5]
    let session := (start.run lastProgram).2.perform
      [.define "xs" (.ofList [.int 1, .str "b"]), .limit 2, .run "(last xs)", .run "(define l 3)"]
    (start.run lastProgram).1 = .ok (.closure 0 ["l"]) ∧
      ((session.withLimit 7).run "(last xs)").1 = .ok (.str "b") ∧
      ((session.withLimit 6).run "(last xs)").1 = .error (.eval (.tooDeep 6)) ∧
      ((session.withLimit 6).run "(last xs)").2.state.guard.depth = 0 ∧
      session.state.store.Keeps ((session.withLimit 6).run "(last xs)").2.state.store := by
  intro start session
  let found (name : String) := session.state.store.lookup? session.global name
  obtain ⟨hrun, hself, hnull, hcdr, hcar, hlist⟩ :
      (start.run lastProgram).1 = .ok (.closure 0 ["l"]) ∧
      found "last" = some (.closure 0 ["l"]) ∧
      found "null?" = some (.primitive 3 .isNull) ∧ found "cdr" = some (.primitive 2 .cdr) ∧
      found "car" = some (.primitive 1 .car) ∧
      found "xs" = some (.ofList [.int 1, .str "b"]) := by
    decide +kernel
  have hprimitives : ∀ op ∈ [Builtin.isNull, .cdr, .car],
      ∃ id, found op.name = some (.primitive id op) := by
    simp only [List.forall_mem_cons]
    exact ⟨⟨3, hnull⟩, ⟨2, hcdr⟩, ⟨1, hcar⟩, by simp⟩
  have hlast := last_at_limit (Session.start 9).state.store 9 0 _ _ (.closure 0 ["l"])
    [.int 1, .str "b"] (by simp) hrun hself hprimitives hlist
  obtain ⟨hseven, -⟩ := hlast 7 (by decide)
  obtain ⟨-, hsix, hdepth, hkeeps⟩ := hlast 6 (by decide)
  exact ⟨hrun, hseven (by decide), hsix (by decide), hdepth, hkeeps⟩

end TableLisp

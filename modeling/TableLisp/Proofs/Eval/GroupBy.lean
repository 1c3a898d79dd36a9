import TableLisp.Proofs.Eval.Depth
import TableLisp.Proofs.Table.Grouping
import TableLisp.Proofs.Text.Numeral

/-!
# Grouping by calls

`group-by` calls its key function on the rows of a table one after the other. `Keyed` is what these
calls are as long as all goes well: from one state to the next, each with a value that has a key
text. The loop ends either there, with all rows keyed, or at the first row whose call fails or
yields no key; later rows are then not called (`keyRows_outcome`). Only in the first case is
anything grouped, and then the grouping is the stable one.

An integer is a key by its decimal text, so one that is too long to be written is none
(`group_by_long_numeral`).
-/

namespace TableLisp

open Text

/-! ## Keys -/

/-- The text by which a value counts as a key. -/
inductive HasKeyText : Value → String → Prop
  | str (text : String) : HasKeyText (.str text) text
  | sym (name : String) : HasKeyText (.sym name) name
  | int {n : Int} (h : Numeral.isWritable n = true) : HasKeyText (.int n) n.repr

theorem keyText_of_hasKeyText {v : Value} {key : String} (h : HasKeyText v key) :
    Builtin.keyText v = .ok key := by
  cases h with
  | int h => exact if_pos h
  | _ => rfl

theorem keyText_of_keyless {v : Value} (h : ∀ key, ¬ HasKeyText v key) :
    Builtin.keyText v = .error (.notKey v) := by
  cases v with
  | str text => exact absurd (.str text) (h text)
  | sym name => exact absurd (.sym name) (h name)
  | int n => exact if_neg fun hwritable => h n.repr (.int hwritable)
  | _ => rfl

theorem hasKeyText_or_keyless (v : Value) :
    (∃ key, HasKeyText v key) ∨ ∀ key, ¬ HasKeyText v key := by
  cases hkey : Builtin.keyText v with
  | ok key =>
      refine Or.inl (Classical.not_forall_not.mp fun hkeyless => ?_)
      rw [keyText_of_keyless hkeyless] at hkey
      cases hkey
  | error e =>
      refine Or.inr fun key h => ?_
      rw [keyText_of_hasKeyText h] at hkey
      cases hkey

theorem keyless_of_not_isWritable {n : Int} (h : Numeral.isWritable n = false) (key : String) :
    ¬ HasKeyText (.int n) key := by
  intro hkey
  cases hkey with
  | int hwritable => exact Bool.false_ne_true (h.symm.trans hwritable)

/-! ## Calls row by row -/

/-- Calls on some rows in order, from one state to another, and the rows with the keys found. -/
inductive Keyed (call : Value → Eval Value) :
    State → List Value → List (String × Value) → State → Prop
  | nil (s : State) : Keyed call s [] [] s
  | cons {s t u : State} {row v : Value} {key : String} {rows : List Value}
      {keyed : List (String × Value)} (hcall : call row s = .ok v t) (hkey : HasKeyText v key)
      (hrest : Keyed call t rows keyed u) : Keyed call s (row :: rows) ((key, row) :: keyed) u

section

variable {call : Value → Eval Value} {s t u : State} {rows : List Value}
  {keyed : List (String × Value)}

theorem Keyed.rows_eq (h : Keyed call s rows keyed t) : keyed.map Prod.snd = rows := by
  induction h with
  | nil => rfl
  | cons _ _ _ ih => rw [List.map_cons, ih]

theorem keyRows_cons (row : Value) (rest : List Value) (s : State) :
    Builtin.keyRows call (row :: rest) s =
      match call row s with
      | .error e t => .error e t
      | .ok v t =>
        match Builtin.keyText v with
        | .error e => .error e t
        | .ok key =>
          match Builtin.keyRows call rest t with
          | .ok keyed u => .ok ((key, row) :: keyed) u
          | .error e u => .error e u := by
  simp only [Builtin.keyRows, bind, EStateM.bind]
  cases call row s with
  | error e t => rfl
  | ok v t =>
      dsimp only
      cases Builtin.keyText v with
      | error e => rfl
      | ok key =>
          simp only [Eval.ofExcept, pure, EStateM.pure]
          cases Builtin.keyRows call rest t <;> rfl

/-- After rows that are all keyed, the loop goes on from the state that their calls leave. -/
theorem keyRows_append (h : Keyed call s rows keyed t) (rest : List Value) :
    Builtin.keyRows call (rows ++ rest) s =
      match Builtin.keyRows call rest t with
      | .ok more u => .ok (keyed ++ more) u
      | .error e u => .error e u := by
  induction h with
  | nil s =>
      rw [List.nil_append]
      cases Builtin.keyRows call rest s <;> rfl
  | @cons s t u row v key rows keyed hcall hkey hrest ih =>
      rw [List.cons_append, keyRows_cons, hcall]
      simp only [keyText_of_hasKeyText hkey, ih]
      cases Builtin.keyRows call rest u <;> rfl

theorem keyRows_of_keyed (h : Keyed call s rows keyed t) :
    Builtin.keyRows call rows s = .ok keyed t := by
  have happend := keyRows_append h []
  simpa [Builtin.keyRows, pure, EStateM.pure] using happend

/-- The loop fails as the call of a row does, if it comes so far. -/
theorem keyRows_of_failed (h : Keyed call s rows keyed t) {row : Value} {e : EvalError}
    (hcall : call row t = .error e u) (after : List Value) :
    Builtin.keyRows call (rows ++ row :: after) s = .error e u := by
  rw [keyRows_append h, keyRows_cons, hcall]

theorem keyRows_of_keyless (h : Keyed call s rows keyed t) {row v : Value}
    (hcall : call row t = .ok v u) (hkey : ∀ key, ¬ HasKeyText v key) (after : List Value) :
    Builtin.keyRows call (rows ++ row :: after) s = .error (.notKey v) u := by
  rw [keyRows_append h, keyRows_cons, hcall]
  simp only [keyText_of_keyless hkey]

end

/-- Either every row is keyed, or there is a first one that is not. -/
theorem keyRows_outcome (call : Value → Eval Value) : ∀ (rows : List Value) (s : State),
    (∃ keyed t, Keyed call s rows keyed t) ∨
      ∃ before row after keyed t, rows = before ++ row :: after ∧ Keyed call s before keyed t ∧
        ((∃ e u, call row t = .error e u) ∨
          ∃ v u, call row t = .ok v u ∧ ∀ key, ¬ HasKeyText v key)
  | [], s => Or.inl ⟨[], s, .nil s⟩
  | row :: rest, s => by
      cases hcall : call row s with
      | error e t => exact Or.inr ⟨[], row, rest, [], s, rfl, .nil s, Or.inl ⟨e, t, hcall⟩⟩
      | ok v t =>
          rcases hasKeyText_or_keyless v with ⟨key, hkey⟩ | hkey
          · rcases keyRows_outcome call rest t with
              ⟨keyed, u, hrest⟩ | ⟨before, bad, after, keyed, u, rfl, hbefore, hbad⟩
            · exact Or.inl ⟨_, u, .cons hcall hkey hrest⟩
            · exact Or.inr
                ⟨row :: before, bad, after, _, u, rfl, .cons hcall hkey hbefore, hbad⟩
          · exact Or.inr ⟨[], row, rest, [], s, rfl, .nil s, Or.inr ⟨v, t, hcall, hkey⟩⟩

/-! ## The primitive -/

theorem applyValue_groupBy (id : Nat) (table keyFunction : Value) (caller : FrameId) :
    applyValue (.primitive id .groupBy) [table, keyFunction] caller =
      Builtin.groupTable (fun fn arg => applyValue fn [arg] caller) table keyFunction := by
  rw [applyValue_eq]
  rfl

/-- What is no key function is refused before anything is called. -/
theorem groupTable_of_not_isProcedure (call : Value → Value → Eval Value)
    {table keyFunction : Value} (h : keyFunction.isProcedure = false) (s : State) :
    Builtin.groupTable call table keyFunction s = .error (.notKeyFunction keyFunction) s := by
  rw [Builtin.groupTable_eq, h]
  rfl

/-- What is no list of rows is refused before anything is called. -/
theorem groupTable_of_not_isProper (call : Value → Value → Eval Value) {table keyFunction : Value}
    (hfn : keyFunction.isProcedure = true) (h : table.isProper = false) (s : State) :
    Builtin.groupTable call table keyFunction s = .error (.notList .groupBy table) s := by
  rw [Builtin.groupTable_eq, hfn]
  simp only [Value.toList?, h]
  rfl

theorem groupTable_run (call : Value → Value → Eval Value) {table keyFunction : Value}
    (hfn : keyFunction.isProcedure = true) (htable : table.isProper = true) (s : State) :
    Builtin.groupTable call table keyFunction s =
      match Builtin.keyRows (call keyFunction) table.elements s with
      | .ok keyed t => .ok (Builtin.groupsValue (Builtin.groupRows keyed)) t
      | .error e t => .error e t := by
  rw [Builtin.groupTable_eq, hfn]
  simp only [Value.toList?, htable, Bool.not_true, Bool.false_eq_true, if_false, if_true, bind,
    EStateM.bind]
  cases Builtin.keyRows (call keyFunction) table.elements s <;> rfl

/-- What is grouped has been keyed row by row. -/
theorem keyed_of_groupTable {call : Value → Value → Eval Value} {table keyFunction v : Value}
    {s t : State} (h : Builtin.groupTable call table keyFunction s = .ok v t) :
    table.isProper = true ∧ ∃ keyed, Keyed (call keyFunction) s table.elements keyed t ∧
      v = Builtin.groupsValue (Builtin.groupRows keyed) := by
  have hfn : keyFunction.isProcedure = true := by
    rw [← Bool.not_eq_false]
    intro hfn
    rw [groupTable_of_not_isProcedure call hfn] at h
    cases h
  have htable : table.isProper = true := by
    rw [← Bool.not_eq_false]
    intro htable
    rw [groupTable_of_not_isProper call hfn htable] at h
    cases h
  refine ⟨htable, ?_⟩
  rw [groupTable_run call hfn htable] at h
  rcases keyRows_outcome (call keyFunction) table.elements s with
    ⟨keyed, u, hkeyed⟩ | ⟨before, row, after, keyed, u, hrows, hkeyed, hbad⟩
  · rw [keyRows_of_keyed hkeyed] at h
    cases h
    exact ⟨keyed, hkeyed, rfl⟩
  · rw [hrows] at h
    rcases hbad with ⟨e, w, hcall⟩ | ⟨key, w, hcall, hkey⟩
    · rw [keyRows_of_failed hkeyed hcall] at h
      cases h
    · rw [keyRows_of_keyless hkeyed hcall hkey] at h
      cases h

/-- **Grouping.** `group-by` refuses what is no procedure and what is no list of rows before it
calls anything. Otherwise it calls the key function on the rows in order. If each call succeeds
with a key, it yields the stable grouping of the rows by their key texts: a list of pairs of a key
and the list of its rows, in which no row is lost or doubled. If not, it fails at the first row
whose call fails, with that failure, or whose call yields no key, and calls nothing after it. What
is refused is refused with a type error if it can be written, and else as a numeral that is too
long; an integer that cannot be written is no key. -/
theorem group_by_outcome (id : Nat) (table keyFunction : Value) (caller : FrameId) (s : State) :
    let call := fun row => applyValue keyFunction [row] caller
    let result := applyValue (.primitive id .groupBy) [table, keyFunction] caller s
    (keyFunction.isProcedure = false → ∃ e, result = .error e s ∧
      e.kind = if keyFunction.isWritable then .type else .numeralTooLong) ∧
    (keyFunction.isProcedure = true → table.isProper = false → ∃ e, result = .error e s ∧
      e.kind = if table.isWritable then .type else .numeralTooLong) ∧
    (keyFunction.isProcedure = true ∧ table.isProper = true →
      (∀ keyed t, Keyed call s table.elements keyed t →
        ∃ groups : List (String × List Value), StablyGrouped keyed groups ∧
          result = .ok (.ofList (groups.map fun (key, rows) => .pair (.str key) (.ofList rows))) t ∧
          (groups.map Prod.fst).Nodup ∧ (∀ group ∈ groups, group.2 ≠ []) ∧
          (groups.flatMap Prod.snd).Perm table.elements) ∧
      (∀ before row after keyed t, table.elements = before ++ row :: after →
        Keyed call s before keyed t →
          (∀ e u, call row t = .error e u → result = .error e u) ∧
          (∀ v u, call row t = .ok v u → (∀ key, ¬ HasKeyText v key) → ∃ e, result = .error e u ∧
            e.kind = if v.isWritable then .type else .numeralTooLong)) ∧
      ((∃ keyed t, Keyed call s table.elements keyed t) ∨
        ∃ before row after keyed t, table.elements = before ++ row :: after ∧
          Keyed call s before keyed t ∧
            ((∃ e u, call row t = .error e u) ∨
              ∃ v u, call row t = .ok v u ∧ ∀ key, ¬ HasKeyText v key))) := by
  intro call result
  have hresult : result = Builtin.groupTable (fun fn arg => applyValue fn [arg] caller) table
      keyFunction s := by rw [← applyValue_groupBy id]
  refine ⟨fun hfn => ?_, fun hfn htable => ?_, ?_⟩
  · exact ⟨_, hresult.trans (groupTable_of_not_isProcedure _ hfn s), rfl⟩
  · exact ⟨_, hresult.trans (groupTable_of_not_isProper _ hfn htable s), rfl⟩
  rintro ⟨hfn, htable⟩
  rw [groupTable_run _ hfn htable] at hresult
  refine ⟨fun keyed t hkeyed => ?_, fun before row after keyed t hrows hkeyed => ?_,
    keyRows_outcome call table.elements s⟩
  · have hgroups := stablyGrouped_groupRows keyed
    rw [keyRows_of_keyed hkeyed] at hresult
    refine ⟨_, hgroups, hresult, hgroups.nodup, fun group hgroup => hgroups.ne_nil hgroup, ?_⟩
    rw [← hkeyed.rows_eq]
    exact hgroups.perm
  · rw [hrows] at hresult
    constructor
    · intro e u hcall
      rw [hresult, keyRows_of_failed hkeyed hcall]
    · intro v u hcall hkey
      refine ⟨.notKey v, ?_, rfl⟩
      rw [hresult, keyRows_of_keyless hkeyed hcall hkey]

/-- A row under an integer that is too long to be written: the key function succeeds with the
integer, and nothing is grouped. -/
theorem group_by_long_numeral :
    let long : Value := .int Numeral.leastTooLong
    let row := Value.pair long .nil
    let s : State := ⟨.empty, .ofLimit 4⟩
    applyValue (.primitive 1 .car) [row] 0 s = .ok long s ∧
      ∃ e, applyValue (.primitive 6 .groupBy) [.ofList [row], .primitive 1 .car] 0 s = .error e s ∧
        e.kind = .numeralTooLong ∧ e.kind ≠ .type := by
  intro long row s
  have hcall : applyValue (.primitive 1 .car) [row] 0 s = .ok long s := by
    rw [applyValue_eq]
    rfl
  have hkeyed : Keyed (fun row => applyValue (.primitive 1 .car) [row] 0) s [] [] s := .nil s
  have hrows := keyRows_of_keyless hkeyed hcall
    (keyless_of_not_isWritable Numeral.isWritable_leastTooLong) []
  have hkind : (EvalError.notKey long).kind = .numeralTooLong :=
    EvalError.kind_of_not_isWritable rfl Numeral.isWritable_leastTooLong
  refine ⟨hcall, .notKey long, ?_, hkind, by rw [hkind]; decide⟩
  rw [applyValue_groupBy, groupTable_run _ rfl (Value.isProper_ofList _), Value.elements_ofList]
  rw [List.nil_append] at hrows
  rw [hrows]

end TableLisp

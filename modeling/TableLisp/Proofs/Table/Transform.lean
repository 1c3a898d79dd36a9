import TableLisp.Proofs.Eval.GroupBy
import TableLisp.Proofs.Eval.Yields
import TableLisp.Proofs.Store.Lookup
import TableLisp.Proofs.Table.Display
import TableLisp.Settings
import TableLisp.Table.Transform

/-!
# Grouping transactions by a field

The program that groups a table by one of its fields is followed from its text to the groups that
are shown: it is read (`Field.parse_program`), its key function finds the field of every row
(`Field.keyed_all`), and the rows are grouped as the transactions would be, by the text of the
field. The transactions carry the numbers of their rows along the way, since two of them may be
equal and their rows are not.
-/

namespace TableLisp

open Text

namespace Transaction

namespace Field

/-! ## The program -/

/-- The program that groups a table by a field. -/
def program (field : Field) : String :=
  "(group-by table (lambda (row) (cdr (assoc '" ++ field.name ++ " (cdr row)))))"

/-- The body of its key function. -/
def keyForm (field : Field) : Form :=
  .list [.sym "cdr", .list [.sym "assoc", .quoted (.sym field.name),
    .list [.sym "cdr", .sym "row"]]]

def programForm (field : Field) : Form :=
  .list [.sym "group-by", .sym tableName, .list [.sym "lambda", .list [.sym "row"], field.keyForm]]

theorem parse_program (field : Field) :
    parse Settings.defaultMaxDepth field.program.toList = .ok [field.programForm] := by
  cases field <;> decide +kernel

/-! ## The key of a row -/

theorem hasKeyText_value {tx : Transaction} (h : tx.HasReadableAmount) (field : Field) :
    HasKeyText (field.value tx) (field.text tx) := by
  cases field with
  | amount => exact .int h.isWritable
  | _ => constructor

variable {field : Field} {store : Store} {global : FrameId} {id : Nat}

/-- The key function finds the field of a row. -/
theorem yields_key (hglobal : store.IsGlobal global)
    (hcode : store.codes[id]? = some ⟨[field.keyForm], global⟩) (n : Int) (tx : Transaction)
    (caller : FrameId) :
    Eval.Yields 4 (applyValue (.closure id ["row"]) [tx.toRow n] caller) store (field.value tx)
      (store.newFrame [("row", tx.toRow n)] (some global)).2 := by
  let bindings := [("row", tx.toRow n)]
  let t := (store.newFrame bindings (some global)).2
  let frame := store.frames.size
  have hrow : t.lookup? frame "row" = some (tx.toRow n) :=
    hglobal.lookup?_newFrame bindings "row"
  have hop (op : Builtin) : ∃ m, t.lookup? frame op.name = some (.primitive m op) := by
    have hnew : bindings.lookup op.name = none := by cases op <;> rfl
    obtain ⟨m, hfound⟩ := (hglobal.newFrame bindings (some global)).lookup? op
    exact ⟨m, by rw [hglobal.lookup?_newFrame, hnew, hfound]; rfl⟩
  obtain ⟨c, hcdr⟩ := hop .cdr
  obtain ⟨a, hassoc⟩ := hop .assoc
  have hfields : Eval.Yields 2 (evaluate (.list [.sym "cdr", .sym "row"]) frame) t tx.fields t :=
    .call rfl (.sym hcdr) (.operands_cons (.sym hrow) (.operands_nil t))
      (.primitive (fun _ => rfl) t)
  have hentry : Eval.Yields 3 (evaluate (.list [.sym "assoc", .quoted (.sym field.name),
      .list [.sym "cdr", .sym "row"]]) frame) t (.pair (.sym field.name) (field.value tx)) t := by
    refine .call rfl ((Eval.Yields.sym hassoc).mono (by decide))
      (.operands_cons ((Eval.Yields.quoted _ frame t).mono (by decide))
        (.operands_cons hfields (.operands_nil t))) (.primitive (fun _ => ?_) t)
    rw [Form.toValue, Builtin.run, associate_fields]
    rfl
  refine .closure hcode rfl (.body ?_)
  exact .call rfl ((Eval.Yields.sym hcdr).mono (by decide))
    (.operands_cons hentry (.operands_nil t)) (.primitive (fun _ => rfl) t)

/-! ## The keys of all rows -/

/-- The rows of numbered transactions under the text of a field. -/
def keyedRows (field : Field) (numbered : List (Transaction × Nat)) : List (String × Value) :=
  numbered.map fun entry => (field.text entry.1, numberedRow entry)

/-- The frames that the key function leaves behind, one for each row. -/
def keyFrames (global : FrameId) (store : Store) (numbered : List (Transaction × Nat)) : Store :=
  numbered.foldl (fun store entry =>
    (store.newFrame [("row", numberedRow entry)] (some global)).2) store

/-- Every row is keyed by the text of the field. -/
theorem keyed_all {g : Guard} (hroom : 4 ≤ g.room) (caller : FrameId) :
    ∀ {numbered : List (Transaction × Nat)} {store : Store},
      (∀ entry ∈ numbered, entry.1.HasReadableAmount) → store.IsGlobal global →
      store.codes[id]? = some ⟨[field.keyForm], global⟩ →
      Keyed (fun row => applyValue (.closure id ["row"]) [row] caller) ⟨store, g⟩
        (numbered.map numberedRow) (field.keyedRows numbered)
        ⟨keyFrames global store numbered, g⟩
  | [], _, _, _, _ => .nil _
  | (tx, n) :: rest, _, h, hglobal, hcode => by
      obtain ⟨htx, hrest⟩ := List.forall_mem_cons.mp h
      exact .cons (yields_key hglobal hcode n tx caller g hroom) (hasKeyText_value htx field)
        (keyed_all hroom caller hrest (hglobal.newFrame _ _) hcode)

/-! ## The grouping -/

/-- With the table bound, the program yields the grouping of the rows by the field. -/
theorem yields_program (field : Field) {store : Store} {global : FrameId}
    (hglobal : store.IsGlobal global) {numbered : List (Transaction × Nat)}
    (h : ∀ entry ∈ numbered, entry.1.HasReadableAmount)
    (htable : store.lookup? global tableName = some (.ofList (numbered.map numberedRow))) :
    ∃ store', Eval.Yields 5 (evaluate field.programForm global) store
      (Builtin.groupsValue (Builtin.groupRows (field.keyedRows numbered))) store' := by
  obtain ⟨n, hgroupBy⟩ := hglobal.lookup? .groupBy
  let code : Code := ⟨[field.keyForm], global⟩
  let t := (store.newClosure ["row"] code).2
  have hlambda : Eval.Yields 1 (evaluate (.list [.sym "lambda", .list [.sym "row"], field.keyForm])
      global) store (.closure store.codes.size ["row"]) t := .lambda rfl global store
  have hcode : t.codes[store.codes.size]? = some code := Array.getElem?_push_size
  have hglobal' : t.IsGlobal global := hglobal.of_frames_eq rfl
  have hcall : Eval.Yields 4 (applyValue (.primitive n .groupBy)
      [.ofList (numbered.map numberedRow), .closure store.codes.size ["row"]] global) t
      (Builtin.groupsValue (Builtin.groupRows (field.keyedRows numbered)))
      (keyFrames global t numbered) := by
    intro g hroom
    have hkeyed := keyed_all hroom global h hglobal' hcode
    rw [applyValue_groupBy, groupTable_run _ rfl (Value.isProper_ofList _), Value.elements_ofList,
      keyRows_of_keyed hkeyed]
  refine ⟨keyFrames global t numbered, ?_⟩
  exact .call rfl ((Eval.Yields.sym hgroupBy).mono (by decide))
    (.operands_cons ((Eval.Yields.sym htable).mono (by decide))
      (.operands_cons (hlambda.mono (by decide)) (.operands_nil t))) hcall

/-- The transformation succeeds with the grouping of the rows. -/
theorem transform_program (field : Field) (store : Store) {txs : List Transaction}
    (h : ∀ entry ∈ txs.zipIdx 1, entry.1.HasReadableAmount) :
    ∃ s, transform ⟨store, .ofLimit Settings.defaultMaxDepth⟩ (table txs) field.program =
      (.ok (Builtin.groupsValue (Builtin.groupRows (field.keyedRows (txs.zipIdx 1)))), s) := by
  let session := (State.newSession ⟨store, .ofLimit Settings.defaultMaxDepth⟩).define tableName
    (table txs)
  have hnew := Store.isGlobal_newGlobal store
  have hglobal : session.state.store.IsGlobal session.global := hnew.define rfl (table txs)
  have htable : session.state.store.lookup? session.global tableName =
      some (.ofList ((txs.zipIdx 1).map numberedRow)) := by
    rw [← rowsFrom_eq]
    exact hnew.lookup?_define tableName (table txs)
  obtain ⟨store', hyields⟩ := field.yields_program hglobal h htable
  have hroom : 5 ≤ session.state.guard.room := by
    have hguard : session.state.guard = .ofLimit Settings.defaultMaxDepth := rfl
    rw [hguard]
    decide
  have hrun := Session.run_of_yields field.parse_program hyields hroom
  exact ⟨_, by rw [transform, hrun]; rfl⟩

/-- What the rows of transactions are grouped into is shown as the transactions in groups. -/
theorem displayGroups_groupRows (field : Field) {txs : List Transaction}
    (h : ∀ entry ∈ txs.zipIdx 1, entry.1.HasReadableAmount) :
    ∃ groups, StablyGrouped (txs.map fun tx => (field.text tx, tx)) groups ∧
      displayGroups (Builtin.groupsValue (Builtin.groupRows (field.keyedRows (txs.zipIdx 1)))) =
        .ok (groups.map fun group => ⟨group.1, group.2.map displayRow⟩) := by
  let items := (txs.zipIdx 1).map fun entry => (field.text entry.1, entry)
  have hitems : StablyGrouped items (stableGroups items) := stablyGrouped_stableGroups items
  have hrows : Builtin.groupRows (field.keyedRows (txs.zipIdx 1)) =
      (stableGroups items).map (Prod.map id (List.map numberedRow)) := by
    have hkeyed := hitems.map numberedRow
    rw [List.map_map] at hkeyed
    exact (stablyGrouped_groupRows _).unique hkeyed
  have htxs : items.map (Prod.map id Prod.fst) = txs.map fun tx => (field.text tx, tx) := by
    conv_rhs => rw [← List.zipIdx_map_fst 1 txs, List.map_map]
    rw [List.map_map]
    rfl
  refine ⟨(stableGroups items).map (Prod.map id (List.map Prod.fst)), ?_, ?_⟩
  · rw [← htxs]
    exact hitems.map Prod.fst
  · have hreadable : ∀ group ∈ stableGroups items, ∀ entry ∈ group.2,
        entry.1.HasReadableAmount := by
      intro group hgroup entry hentry
      have hitem := hitems.perm.mem_iff.mp (List.mem_flatMap.mpr ⟨group, hgroup, hentry⟩)
      exact h entry (by simpa [items] using hitem)
    rw [hrows, displayGroups_groupsValue]
    · rw [List.map_map, List.map_map]
      refine congrArg Except.ok (List.map_congr_left fun group hgroup => ?_)
      simp [shownRows_numbered (hreadable group hgroup)]
    · refine List.forall_mem_map.mpr fun group hgroup => List.forall_mem_map.mpr fun entry hentry => ?_
      exact isShowable_numberedRow (hreadable group hgroup entry hentry)

end Field

/-- **Grouping a table.** At the default limit and on any store, the program that groups a table by
a field succeeds on the table of any transactions whose amounts can be read. Shown, its result is
the stable grouping of the transactions by the text of the field, each group under this text and
each transaction as a row. -/
theorem transform_groups (store : Store) (field : Field) (txs : List Transaction)
    (h : ∀ tx ∈ txs, tx.HasReadableAmount) :
    ∃ v s groups,
      transform ⟨store, .ofLimit Settings.defaultMaxDepth⟩ (table txs) field.program = (.ok v, s) ∧
      StablyGrouped (txs.map fun tx => (field.text tx, tx)) groups ∧
      displayGroups v = .ok (groups.map fun group => ⟨group.1, group.2.map displayRow⟩) ∧
      (txs = [] → v = .nil ∧ groups = []) := by
  have hnumbered : ∀ entry ∈ txs.zipIdx 1, entry.1.HasReadableAmount :=
    fun entry hentry => h entry.1 (List.fst_mem_of_mem_zipIdx hentry)
  obtain ⟨s, hrun⟩ := field.transform_program store hnumbered
  obtain ⟨groups, hgroups, hshown⟩ := field.displayGroups_groupRows hnumbered
  refine ⟨_, s, groups, hrun, hgroups, hshown, ?_⟩
  rintro rfl
  refine ⟨rfl, ?_⟩
  exact hgroups.unique (stablyGrouped_stableGroups [])

/-- Three transactions in two categories. -/
theorem transform_two_categories :
    let bread : Transaction := ⟨⟨2025, 1, 1⟩, -1000, "Food", "Cash", none⟩
    let wage : Transaction := ⟨⟨2025, 1, 2⟩, 250000, "Salary", "Bank", some "January"⟩
    let lunch : Transaction := ⟨⟨2025, 1, 3⟩, -850, "Food", "Card", some ""⟩
    ∃ v s, transform ⟨.empty, .ofLimit Settings.defaultMaxDepth⟩ (table [bread, wage, lunch])
        (Field.program .category) = (.ok v, s) ∧
      displayGroups v =
        .ok [⟨"Food", [bread.displayRow, lunch.displayRow]⟩, ⟨"Salary", [wage.displayRow]⟩] := by
  intro bread wage lunch
  obtain ⟨v, s, groups, hrun, hgroups, hshown, -⟩ :=
    transform_groups .empty .category [bread, wage, lunch] (by decide)
  have htwo : groups = [("Food", [bread, lunch]), ("Salary", [wage])] :=
    hgroups.unique (stablyGrouped_stableGroups _)
  rw [htwo] at hshown
  exact ⟨v, s, hrun, hshown⟩

end Transaction

end TableLisp

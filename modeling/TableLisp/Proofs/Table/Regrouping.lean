import TableLisp.Proofs.Eval.GroupBy
import TableLisp.Proofs.Table.Display

/-!
# Rows kept by grouping

To group a table is to put its entries in another order and some parentheses around them. Entries
are shown as the same rows wherever they stand, be they rows or groups of their own, so a grouping
is shown as the rows of the table in another order, and cannot be shown only where the table could
not (`rows_of_group_by`). Which of several such entries comes first may change, and so may the
failure, if one of them holds a numeral that is too long (`rows_of_long_numeral`).
-/

namespace TableLisp

variable {keyed : List (String × Value)}

theorem names_groupRows (keyed : List (String × Value)) :
    (Builtin.groupRows keyed).map Prod.fst = (keyed.map Prod.fst).eraseDups := by
  simp [Builtin.groupRows, Function.comp_def]

theorem exists_error_iff {ε α : Type} {outcome : Except ε α} :
    (∃ e, outcome = .error e) ↔ ¬ ∃ v, outcome = .ok v := by
  cases outcome <;> simp

/-- **Rows kept by grouping.** What `group-by` yields on a table is shown, or fails to be, as the
entries of the table in another order. So it can be shown exactly if the table can, and if the table
can be written, neither fails but in words. If it can be shown, then as the rows of the table in
some order, and as groups that are named by the distinct key texts in order of first appearance and
hold these rows one group after the other. -/
theorem rows_of_group_by (id : Nat) (table keyFunction v : Value) (caller : FrameId) (s t : State)
    (h : applyValue (.primitive id .groupBy) [table, keyFunction] caller s = .ok v t) :
    (∃ entries : List Value, entries.Perm table.elements ∧
      displayRows v = displayRows (.ofList entries)) ∧
    ((∃ e, displayRows v = .error e) ↔ ∃ e, displayRows table = .error e) ∧
    (table.isWritable = true → (FailsInWords (displayRows v) ↔ FailsInWords (displayRows table))) ∧
    (∀ rows, displayRows table = .ok rows → ∃ regrouped groups keyed,
      displayRows v = .ok regrouped ∧ regrouped.Perm rows ∧
      displayGroups v = .ok groups ∧ groups.flatMap DisplayGroup.rows = regrouped ∧
      Keyed (fun row => applyValue keyFunction [row] caller) s table.elements keyed t ∧
      groups.map DisplayGroup.name = (keyed.map Prod.fst).eraseDups) := by
  rw [applyValue_groupBy] at h
  obtain ⟨htable, keyed, hkeyed, rfl⟩ := keyed_of_groupTable h
  obtain ⟨entries, rfl⟩ : ∃ entries, table = .ofList entries :=
    ⟨_, (Value.ofList_elements htable).symm⟩
  have hentries : keyed.map Prod.snd = entries :=
    hkeyed.rows_eq.trans (Value.elements_ofList entries)
  have hperm : ((Builtin.groupRows keyed).flatMap Prod.snd).Perm entries :=
    hentries ▸ (stablyGrouped_groupRows keyed).perm
  have hrows := displayRows_groupsValue (Builtin.groupRows keyed)
  have herrors : (∃ e, displayRows (Builtin.groupsValue (Builtin.groupRows keyed)) = .error e) ↔
      ∃ e, displayRows (.ofList entries) = .error e := by
    rw [hrows, exists_error_iff, exists_error_iff, displayRows_ofList_iff, displayRows_ofList_iff]
    exact not_congr (forall_congr' fun entry => imp_congr hperm.mem_iff Iff.rfl)
  refine ⟨⟨_, by rwa [Value.elements_ofList], hrows⟩, herrors, fun hwritable => ?_,
    fun rows hshown => ?_⟩
  · have hentry := Value.isWritable_ofList.mp hwritable
    have hregrouped := Value.isWritable_ofList.mpr fun entry hmem =>
      hentry entry (hperm.mem_iff.mp hmem)
    rw [hrows] at herrors ⊢
    rw [failsInWords_iff hregrouped, failsInWords_iff hwritable, herrors]
  · have hall := displayRows_ofList_iff.mp ⟨rows, hshown⟩
    have hgroups : ∀ group ∈ Builtin.groupRows keyed, ∀ entry ∈ group.2, IsShowable entry :=
      fun group hgroup entry hentry =>
        hall entry (hperm.mem_iff.mp (List.mem_flatMap.mpr ⟨group, hgroup, hentry⟩))
    have hregrouped : ∀ entry ∈ (Builtin.groupRows keyed).flatMap Prod.snd, IsShowable entry :=
      fun entry hentry => hall entry (hperm.mem_iff.mp hentry)
    rw [displayRows_ofList hall] at hshown
    cases hshown
    refine ⟨_, _, keyed, hrows.trans (displayRows_ofList hregrouped), hperm.flatMap_right shownRows,
      displayGroups_groupsValue hgroups, ?_, hkeyed, ?_⟩
    · rw [List.flatMap_map, List.flatMap_assoc]
    · rw [List.map_map, ← names_groupRows]
      rfl

/-- A row between two groups of one name, grouped by what heads them. -/
theorem rows_of_group_by_head :
    let row (memo : String) :=
      Value.pair (.sym "ID-001") (.ofList [.pair (.sym "memo") (.str memo)])
    let table := Value.ofList [.pair (.str "food") (.ofList [row "bread"]), row "wage",
      .pair (.str "food") (.ofList [row "lunch"])]
    ∃ v t rows regrouped groups,
      applyValue (.primitive 6 .groupBy) [table, .primitive 1 .car] 0 ⟨.empty, .ofLimit 4⟩ =
        .ok v t ∧
      displayRows table = .ok rows ∧ rows.map DisplayRow.memo = ["bread", "wage", "lunch"] ∧
      displayRows v = .ok regrouped ∧ regrouped.Perm rows ∧ displayGroups v = .ok groups ∧
      groups.map DisplayGroup.name = ["food", "ID-001"] := by
  intro row table
  let s : State := ⟨.empty, .ofLimit 4⟩
  have hcall (key rest : Value) :
      applyValue (.primitive 1 .car) [.pair key rest] 0 s = .ok key s := by
    rw [applyValue_eq]
    rfl
  have hkeyed : Keyed (fun row => applyValue (.primitive 1 .car) [row] 0) s table.elements _ s :=
    .cons (hcall _ _) (.str "food") (.cons (hcall _ _) (.sym "ID-001")
      (.cons (hcall _ _) (.str "food") (.nil s)))
  have hrun : ∃ v, applyValue (.primitive 6 .groupBy) [table, .primitive 1 .car] 0 s = .ok v s := by
    rw [applyValue_groupBy, groupTable_run _ rfl rfl, keyRows_of_keyed hkeyed]
    exact ⟨_, rfl⟩
  obtain ⟨v, hrun⟩ := hrun
  have hrows : displayRows table = .ok _ := rfl
  obtain ⟨-, -, -, hshown⟩ := rows_of_group_by 6 table (.primitive 1 .car) v 0 s s hrun
  obtain ⟨regrouped, groups, keyed, hregrouped, hperm, hgroups, -, hkeyed', hnames⟩ :=
    hshown _ hrows
  have hsame := (keyRows_of_keyed hkeyed').symm.trans (keyRows_of_keyed hkeyed)
  cases hsame
  exact ⟨v, s, _, regrouped, groups, hrun, hrows, by decide, hregrouped, hperm, hgroups,
    hnames.trans (by decide)⟩

/-- A row with a numeral that is too long, grouped by what heads it: neither the table nor its
grouping is shown, and neither fails in words. -/
theorem rows_of_long_numeral :
    let memo := Value.pair (.sym "memo") (.int Text.Numeral.leastTooLong)
    let row := Value.pair (.sym "ID-001") (.ofList [memo])
    let s : State := ⟨.empty, .ofLimit 4⟩
    ∃ v, applyValue (.primitive 6 .groupBy) [.ofList [row], .primitive 1 .car] 0 s = .ok v s ∧
      displayRows (.ofList [row]) = .error .numeralTooLong ∧
      displayRows v = .error .numeralTooLong ∧ ¬ FailsInWords (displayRows v) := by
  intro memo row s
  have hcall : applyValue (.primitive 1 .car) [row] 0 s = .ok (.sym "ID-001") s := by
    rw [applyValue_eq]
    rfl
  have hkeyed : Keyed (fun row => applyValue (.primitive 1 .car) [row] 0) s [row] _ s :=
    .cons hcall (.sym "ID-001") (.nil s)
  have hrun : applyValue (.primitive 6 .groupBy) [.ofList [row], .primitive 1 .car] 0 s =
      .ok (Builtin.groupsValue [("ID-001", [row])]) s := by
    rw [applyValue_groupBy, groupTable_run _ rfl (Value.isProper_ofList _), Value.elements_ofList,
      keyRows_of_keyed hkeyed]
    rfl
  have hmemo : row.fieldText? "memo" = .error .numeralTooLong := by
    have hlong : (Value.int Text.Numeral.leastTooLong).displayText = .error .numeralTooLong :=
      if_neg (Bool.eq_false_iff.mp Text.Numeral.isWritable_leastTooLong)
    have hfield : (Value.ofList [memo]).field? "memo" = some (.int Text.Numeral.leastTooLong) := rfl
    rw [Value.fieldText?, hfield, Option.mapM_some, hlong]
    rfl
  have hshown : displayRows (.ofList [row]) = .error .numeralTooLong := by
    have hrow : DisplayRow.ofValue row = .error .numeralTooLong := by
      simp only [DisplayRow.ofValue, hmemo]
      rfl
    have hlist : Value.ofList [row] = .pair row .nil := rfl
    rw [hlist, displayRows_pair, entryRows_row rfl, hrow]
    rfl
  have hregrouped := (displayRows_groupsValue [("ID-001", [row])]).trans hshown
  refine ⟨_, hrun, hshown, hregrouped, ?_⟩
  rintro ⟨e, message, herror, hmessage⟩
  rw [hregrouped] at herror
  cases herror
  cases hmessage

end TableLisp

import Mathlib.Data.List.Flatten
import TableLisp.Proofs.Table.Regrouping

/-!
# Flat and grouped views

The grouped view of a table goes along the same entries as the flat one. Of a group it shows the
same rows, under the name of the group; of a row that stands outside of all groups it shows nothing.
So it shows every row exactly if every entry is a group, and a look at the first entry does not tell
(`row_behind_group`).
-/

namespace TableLisp

/-! ## Lists -/

/-- Only a list can be shown. -/
theorem isProper_of_displayRows : ∀ {v : Value} {rows : List DisplayRow},
    displayRows v = .ok rows → v.isProper = true
  | .nil, _, _ => rfl
  | .pair entry rest, _, h => by
      obtain ⟨-, later, hrest, -⟩ := of_displayRows_pair h
      exact isProper_of_displayRows (v := rest) hrest

/-! ## Views -/

theorem rows_filterMap_shownGroup? (entries : List Value) :
    (entries.filterMap shownGroup?).flatMap DisplayGroup.rows =
      (entries.filter Value.isGroup).flatMap shownRows := by
  induction entries with
  | nil => rfl
  | cons entry rest ih =>
      rw [List.filterMap_cons, List.filter_cons]
      rcases shownGroup?_cases entry with ⟨hgroup, name, hshown⟩ | ⟨hrow, hshown⟩
      · simp [hgroup, hshown, ih]
      · simp [hrow, hshown, ih]

/-- Parts that are left out are missed, if they are not empty. -/
theorem flatMap_filter_eq_iff {α β : Type} {p : α → Bool} {f : α → List β} {as : List α}
    (h : ∀ a ∈ as, p a = false → f a ≠ []) :
    (as.filter p).flatMap f = as.flatMap f ↔ ∀ a ∈ as, p a = true := by
  induction as with
  | nil => simp
  | cons a as ih =>
      obtain ⟨h, hrest⟩ := List.forall_mem_cons.mp h
      rw [List.forall_mem_cons, List.flatMap_cons]
      cases ha : p a with
      | true =>
          rw [List.filter_cons_of_pos ha, List.flatMap_cons, List.append_cancel_left_eq, ih hrest]
          simp
      | false =>
          have hfewer := (List.filter_sublist (p := p) (l := as)).flatMap f
          have hpos := List.length_pos_iff.mpr (h ha)
          rw [List.filter_cons_of_neg (by simp [ha])]
          refine iff_of_false (fun heq => ?_) (by simp)
          have hlength := congrArg List.length heq
          have hle := hfewer.length_le
          rw [List.length_append] at hlength
          omega

/-- **Flat and grouped views.** A value that can be shown as rows is a list, and can be shown in
groups. Its rows are those of its entries, one after the other; the groups are the entries that are
groups, with their names and with the rows that are theirs in the flat view. So the groups show
every row, and in the same order, exactly if every entry is a group, and not only the first one. -/
theorem rows_in_groups (v : Value) (rows : List DisplayRow) (h : displayRows v = .ok rows) :
    v = .ofList v.elements ∧ (∀ entry ∈ v.elements, entryRows entry = .ok (shownRows entry)) ∧
    rows = v.elements.flatMap shownRows ∧
    ∃ groups, displayGroups v = .ok groups ∧
      groups = v.elements.filterMap shownGroup? ∧
      groups.flatMap DisplayGroup.rows = (v.elements.filter Value.isGroup).flatMap shownRows ∧
      (groups.flatMap DisplayGroup.rows = rows ↔ ∀ entry ∈ v.elements, entry.isGroup = true) := by
  have hlist : v = .ofList v.elements := (Value.ofList_elements (isProper_of_displayRows h)).symm
  rw [hlist] at h
  have hshowable : ∀ entry ∈ v.elements, IsShowable entry := isShowable_of_displayRows h
  have hrows : rows = v.elements.flatMap shownRows := by
    rw [displayRows_ofList hshowable] at h
    exact (Except.ok.inj h).symm
  have hgroups : displayGroups v = .ok (v.elements.filterMap shownGroup?) := by
    conv_lhs => rw [hlist]
    exact displayGroups_ofList hshowable
  have hgrouped := rows_filterMap_shownGroup? v.elements
  refine ⟨hlist, fun entry hentry => (hshowable entry hentry).entryRows_eq, hrows, _, hgroups, rfl,
    hgrouped, ?_⟩
  rw [hgrouped, hrows]
  exact flatMap_filter_eq_iff fun entry hentry hrow =>
    shownRows_row_ne_nil hrow (hshowable entry hentry)

/-- Two groups, the second with a group inside: every row is shown under a name. -/
theorem rows_in_two_groups :
    let row (memo : String) :=
      Value.pair (.sym "ID-001") (.ofList [.pair (.sym "memo") (.str memo)])
    let v := Value.ofList [.pair (.str "food") (.ofList [row "bread"]),
      .pair (.str "other") (.ofList [.pair (.str "home") (.ofList [row "lamp"]), row "wage"])]
    ∃ rows groups, displayRows v = .ok rows ∧
      rows.map DisplayRow.memo = ["bread", "lamp", "wage"] ∧
      displayGroups v = .ok groups ∧ groups.map DisplayGroup.name = ["food", "other"] ∧
      groups.flatMap DisplayGroup.rows = rows := by
  intro row v
  have hrows : displayRows v = .ok _ := rfl
  obtain ⟨-, -, -, groups, hgroups, hnames, -, hall⟩ := rows_in_groups v _ hrows
  refine ⟨_, groups, hrows, by decide, hgroups, ?_, hall.mpr (by decide)⟩
  rw [hnames]
  decide

/-- A row behind a group: the first entry is a group, and the row is not shown in any. -/
theorem row_behind_group :
    let row := Value.pair (.sym "ID-001") (.ofList [.pair (.sym "memo") (.str "bread")])
    let v := Value.ofList [.pair (.str "food") .nil, row]
    v.isGrouped = true ∧ displayRows v = .ok [⟨"", "", "", "", "bread"⟩] ∧
      displayGroups v = .ok [⟨"food", []⟩] ∧
      ([⟨"food", []⟩] : List DisplayGroup).flatMap DisplayGroup.rows ≠
        [⟨"", "", "", "", "bread"⟩] := by
  decide

end TableLisp

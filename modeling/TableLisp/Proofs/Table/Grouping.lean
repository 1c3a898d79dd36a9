import Mathlib.Data.List.Induction
import Mathlib.Data.List.Nodup
import TableLisp.Eval.Builtin

/-!
# Stable groupings

A list of items, each under a key, is *stably grouped* if there is one group for each key, the
groups stand in the order in which their keys first appear, and each of them holds the items of its
key in the order that they had (`StablyGrouped`). Such a grouping is unique, its keys are distinct,
its groups are not empty, and together they hold every item once.

Nothing in this looks at the items themselves, so it is stated for items of any type; the grouping
of rows is one case (`stablyGrouped_groupRows`).
-/

namespace TableLisp

variable {α β : Type}

structure StablyGrouped (items : List (String × α)) (groups : List (String × List α)) : Prop where
  mem_keys : ∀ key, key ∈ groups.map Prod.fst ↔ key ∈ items.map Prod.fst
  order : (groups.map Prod.fst).Pairwise fun k l =>
    (items.map Prod.fst).idxOf k < (items.map Prod.fst).idxOf l
  members : ∀ group ∈ groups, group.2 = (items.filter (·.1 == group.1)).map Prod.snd

/-! ## Keys in the order of first appearance -/

theorem eraseDups_append_singleton (keys : List String) (key : String) :
    (keys ++ [key]).eraseDups = if key ∈ keys then keys.eraseDups else keys.eraseDups ++ [key] := by
  rw [List.eraseDups_append]
  by_cases h : key ∈ keys
  · simp [h, List.removeAll]
  · simp [h, List.removeAll, List.eraseDups_cons]

theorem pairwise_idxOf_eraseDups (keys : List String) :
    keys.eraseDups.Pairwise fun k l => keys.idxOf k < keys.idxOf l := by
  induction keys using List.reverseRecOn with
  | nil => simp
  | append_singleton keys key ih =>
      have hkept : keys.eraseDups.Pairwise fun k l =>
          (keys ++ [key]).idxOf k < (keys ++ [key]).idxOf l := by
        refine ih.imp_of_mem fun hk hl hlt => ?_
        rwa [List.idxOf_append_of_mem (List.mem_eraseDups.mp hk),
          List.idxOf_append_of_mem (List.mem_eraseDups.mp hl)]
      rw [eraseDups_append_singleton]
      split
      · exact hkept
      · next hnew =>
          refine List.pairwise_append.mpr ⟨hkept, List.pairwise_singleton .., ?_⟩
          intro k hk l hl
          obtain rfl := List.mem_singleton.mp hl
          have hmem : k ∈ keys := List.mem_eraseDups.mp hk
          rw [List.idxOf_append_of_mem hmem, List.idxOf_append_of_notMem hnew]
          exact Nat.lt_of_lt_of_le (List.idxOf_lt_length_iff.mpr hmem) (Nat.le_add_right ..)

theorem nodup_eraseDups (keys : List String) : keys.eraseDups.Nodup :=
  (pairwise_idxOf_eraseDups keys).imp fun hlt heq => absurd (heq ▸ hlt) (Nat.lt_irrefl _)

/-! ## What a stable grouping is like -/

/-- The items of distinct keys, put together again. -/
theorem flatMap_filter_perm : ∀ {keys : List String} {items : List (String × α)}, keys.Nodup →
    (∀ item ∈ items, item.1 ∈ keys) →
      (keys.flatMap fun key => items.filter (·.1 == key)).Perm items
  | [], items, _, hcover => by
      obtain rfl : items = [] := List.eq_nil_iff_forall_not_mem.mpr fun item hitem =>
        absurd (hcover item hitem) List.not_mem_nil
      simp
  | key :: keys, items, hnodup, hcover => by
      obtain ⟨hnew, hnodup⟩ := List.nodup_cons.mp hnodup
      let others := items.filter fun item => !item.1 == key
      have hothers : (keys.flatMap fun k => others.filter (·.1 == k)).Perm others := by
        refine flatMap_filter_perm hnodup fun item hitem => ?_
        obtain ⟨hitem, hne⟩ := List.mem_filter.mp hitem
        rcases List.mem_cons.mp (hcover item hitem) with heq | hmem
        · simp [heq] at hne
        · exact hmem
      have hsame : (keys.flatMap fun k => items.filter (·.1 == k)) =
          keys.flatMap fun k => others.filter (·.1 == k) := by
        refine List.flatMap_congr fun k hk => ?_
        rw [List.filter_filter]
        refine List.filter_congr fun item _ => ?_
        by_cases h : item.1 = k
        · have hkey : k ≠ key := fun heq => hnew (heq ▸ hk)
          simp [h, hkey]
        · simp [h]
      rw [List.flatMap_cons, hsame]
      exact (hothers.append_left _).trans (List.filter_append_perm ..)

namespace StablyGrouped

variable {items : List (String × α)} {groups groups' : List (String × List α)}

theorem nodup (h : StablyGrouped items groups) : (groups.map Prod.fst).Nodup :=
  h.order.imp fun hlt heq => absurd (heq ▸ hlt) (Nat.lt_irrefl _)

theorem ne_nil (h : StablyGrouped items groups) {group : String × List α}
    (hgroup : group ∈ groups) : group.2 ≠ [] := by
  obtain ⟨item, hitem, hkey⟩ :=
    List.mem_map.mp ((h.mem_keys group.1).mp (List.mem_map_of_mem hgroup))
  rw [h.members group hgroup]
  refine List.ne_nil_of_mem (List.mem_map_of_mem (List.mem_filter.mpr ⟨hitem, ?_⟩))
  simpa using hkey

theorem eq_map_keys (h : StablyGrouped items groups) :
    groups = (groups.map Prod.fst).map fun key =>
      (key, (items.filter (·.1 == key)).map Prod.snd) := by
  rw [List.map_map]
  conv_lhs => rw [← List.map_id groups]
  exact List.map_congr_left fun group hgroup => Prod.ext rfl (h.members group hgroup)

/-- No item is lost and none is there twice. -/
theorem perm (h : StablyGrouped items groups) :
    (groups.flatMap Prod.snd).Perm (items.map Prod.snd) := by
  have hcover : ∀ item ∈ items, item.1 ∈ groups.map Prod.fst :=
    fun item hitem => (h.mem_keys item.1).mpr (List.mem_map_of_mem hitem)
  have hperm := (flatMap_filter_perm h.nodup hcover).map Prod.snd
  rw [List.map_flatMap] at hperm
  rw [h.eq_map_keys, List.flatMap_map]
  exact hperm

/-- There is at most one stable grouping. -/
theorem unique (h : StablyGrouped items groups) (h' : StablyGrouped items groups') :
    groups = groups' := by
  have hperm : (groups.map Prod.fst).Perm (groups'.map Prod.fst) :=
    (List.perm_ext_iff_of_nodup h.nodup h'.nodup).mpr fun key =>
      (h.mem_keys key).trans (h'.mem_keys key).symm
  have hkeys : groups.map Prod.fst = groups'.map Prod.fst :=
    hperm.eq_of_pairwise (fun _ _ _ _ hlt hgt => absurd hlt (Nat.lt_asymm hgt)) h.order h'.order
  rw [h.eq_map_keys, h'.eq_map_keys, hkeys]

/-- Items are grouped by their keys, whatever they are. -/
theorem map (f : α → β) (h : StablyGrouped items groups) :
    StablyGrouped (items.map (Prod.map id f)) (groups.map (Prod.map id (List.map f))) where
  mem_keys key := by simpa using h.mem_keys key
  order := by simpa [Function.comp_def] using h.order
  members := by
    intro group' hgroup'
    obtain ⟨group, hgroup, rfl⟩ := List.mem_map.mp hgroup'
    simp [h.members group hgroup, List.filter_map, Function.comp_def]

end StablyGrouped

/-! ## Grouping -/

/-- The stable grouping of items. -/
def stableGroups (items : List (String × α)) : List (String × List α) :=
  (items.map Prod.fst).eraseDups.map fun key => (key, (items.filter (·.1 == key)).map Prod.snd)

theorem stablyGrouped_stableGroups (items : List (String × α)) :
    StablyGrouped items (stableGroups items) := by
  have hkeys : (stableGroups items).map Prod.fst = (items.map Prod.fst).eraseDups := by
    simp [stableGroups, Function.comp_def]
  refine ⟨fun key => ?_, ?_, fun group hgroup => ?_⟩
  · rw [hkeys]
    exact List.mem_eraseDups
  · rw [hkeys]
    exact pairwise_idxOf_eraseDups _
  · obtain ⟨key, -, rfl⟩ := List.mem_map.mp hgroup
    rfl

theorem stablyGrouped_groupRows (rows : List (String × Value)) :
    StablyGrouped rows (Builtin.groupRows rows) :=
  stablyGrouped_stableGroups rows

end TableLisp

import Mathlib.Data.List.Nodup
import TableLisp.Proofs.Table.Display

/-!
# Tables of transactions

A table holds everything there is to its transactions: a row for each, under a name that no other
row has, and in the row every field as it is. So the display gives the transactions back in their
order, and only equal transactions make equal tables (`Transaction.table_of_transactions`). A memo
that is missing cannot be told from an empty one (`Transaction.withMemo`).
-/

namespace TableLisp

open Text

/-! ## Dates -/

/-- Two texts are cut in the same place where a character stands for the first time. -/
theorem eq_of_first {c : Char} {cs cs' ds ds' : List Char} (h : c ∉ cs) (h' : c ∉ cs')
    (heq : cs ++ c :: ds = cs' ++ c :: ds') : cs = cs' ∧ ds = ds' := by
  have hlength : cs.length = cs'.length := by
    simpa [List.idxOf_append_of_notMem h, List.idxOf_append_of_notMem h'] using
      congrArg (List.idxOf c) heq
  obtain ⟨hcs, hds⟩ := List.append_inj heq hlength
  exact ⟨hcs, (List.cons.inj hds).2⟩

theorem Date.text_injective : Function.Injective Date.text := by
  rintro ⟨year, month, day⟩ ⟨year', month', day'⟩ h
  have hdash {width n : Nat} : '-' ∉ (Numeral.padded width n).toList := by
    intro hmem
    cases Numeral.isDigit_padded hmem
  have hparts (date : Date) : date.text.toList = (Numeral.padded 4 date.year).toList ++ '-' ::
      ((Numeral.padded 2 date.month).toList ++ '-' :: (Numeral.padded 2 date.day).toList) := by
    simp [text]
  have hlists := congrArg String.toList h
  rw [hparts, hparts] at hlists
  obtain ⟨hyear, hlists⟩ := eq_of_first hdash hdash hlists
  obtain ⟨hmonth, hday⟩ := eq_of_first hdash hdash hlists
  rw [Date.mk.injEq]
  exact ⟨Numeral.padded_inj hyear, Numeral.padded_inj hmonth, Numeral.padded_inj hday⟩

namespace Transaction

/-! ## Rows -/

theorem rowName_injective : Function.Injective fun n : Nat => rowName n := by
  intro m n h
  have hlists := congrArg String.toList h
  simp only [rowName, String.toList_append] at hlists
  exact Numeral.padded_inj (List.append_cancel_left hlists)

/-- The names and the fields of the rows of a table. -/
def entries (txs : List Transaction) : List (String × Value) :=
  (txs.zipIdx 1).map fun entry => (rowName entry.2, entry.1.fields)

theorem toList?_table (txs : List Transaction) :
    (table txs).toList? = some ((entries txs).map fun entry => .pair (.sym entry.1) entry.2) := by
  rw [table, Value.toList?_ofList, rowsFrom_eq, entries, List.map_map]
  rfl

theorem nodup_names (txs : List Transaction) : ((entries txs).map Prod.fst).Nodup := by
  have hnames : (entries txs).map Prod.fst =
      (List.range' 1 txs.length).map fun n : Nat => rowName n := by
    rw [← List.zipIdx_map_snd, entries, List.map_map, List.map_map]
    rfl
  rw [hnames]
  exact (List.nodup_range' 1).map rowName_injective

/-! ## Equal tables -/

/-- A transaction with a memo, an empty one if it has none. -/
def withMemo (tx : Transaction) : Transaction :=
  { tx with memo := some (tx.memo.getD "") }

theorem fields_eq_iff {tx tx' : Transaction} :
    tx.fields = tx'.fields ↔ tx.withMemo = tx'.withMemo := by
  obtain ⟨date, amount, category, account, memo⟩ := tx
  obtain ⟨date', amount', category', account', memo'⟩ := tx'
  simp [fields, withMemo, Field.all, Field.name, Field.value, Value.ofList, Value.chain,
    Date.text_injective.eq_iff]

theorem rowsFrom_eq_iff : ∀ {txs txs' : List Transaction} {n : Nat},
    rowsFrom n txs = rowsFrom n txs' ↔ txs.map withMemo = txs'.map withMemo
  | [], [], _ => by simp [rowsFrom]
  | [], _ :: _, _ | _ :: _, [], _ => by simp [rowsFrom]
  | tx :: rest, tx' :: rest', n => by
      have hrow : tx.toRow n = tx'.toRow n ↔ tx.withMemo = tx'.withMemo := by
        rw [toRow_eq, toRow_eq, Value.pair.injEq, fields_eq_iff, eq_self, true_and]
      rw [rowsFrom, rowsFrom, List.map_cons, List.map_cons, List.cons.injEq, List.cons.injEq, hrow,
        rowsFrom_eq_iff]

theorem table_eq_iff {txs txs' : List Transaction} :
    table txs = table txs' ↔ txs.map withMemo = txs'.map withMemo := by
  rw [← rowsFrom_eq_iff (n := 1)]
  refine ⟨fun h => ?_, congrArg Value.ofList⟩
  have helements := congrArg Value.elements h
  rwa [table, table, Value.elements_ofList, Value.elements_ofList] at helements

/-! ## Tables -/

theorem displayRows_table {txs : List Transaction} (h : ∀ tx ∈ txs, tx.HasReadableAmount) :
    displayRows (table txs) = .ok (txs.map displayRow) := by
  have hreadable : ∀ entry ∈ txs.zipIdx 1, entry.1.HasReadableAmount := fun entry hentry =>
    h entry.1 (List.fst_mem_of_mem_zipIdx hentry)
  have hshowable : ∀ row ∈ (txs.zipIdx 1).map numberedRow, IsShowable row :=
    List.forall_mem_map.mpr fun entry hentry => isShowable_numberedRow (hreadable entry hentry)
  rw [table, rowsFrom_eq, displayRows_ofList hshowable, shownRows_numbered hreadable,
    List.zipIdx_map_fst]

/-- **Tables.** The table of transactions is a list of one row for each of them, under distinct
names, and does not pass for groups. It is shown as the transactions in their order if their amounts
can be read. Two tables are equal only if their transactions are, up to missing memos. -/
theorem table_of_transactions (txs : List Transaction) :
    (∃ entries : List (String × Value),
      (table txs).toList? = some (entries.map fun entry => .pair (.sym entry.1) entry.2) ∧
      entries.length = txs.length ∧ (entries.map Prod.fst).Nodup) ∧
    (table txs).isGrouped = false ∧
    ((∀ tx ∈ txs, tx.HasReadableAmount) → displayRows (table txs) = .ok (txs.map displayRow)) ∧
    (∀ txs', (table txs).isEqual (table txs') = true ↔ txs.map withMemo = txs'.map withMemo) := by
  have hgrouped : (table txs).isGrouped = false := by
    cases txs <;> rfl
  refine ⟨⟨entries txs, toList?_table txs, by simp [entries], nodup_names txs⟩, hgrouped,
    displayRows_table, fun txs' => ?_⟩
  rw [Value.isEqual_iff, table_eq_iff]

/-- A memo that is missing, an empty one, and one that is neither. -/
theorem table_of_memos :
    let bread : Transaction := ⟨⟨2025, 1, 1⟩, -1000, "Food", "", none⟩
    let silent := { bread with memo := some "" }
    let noted := { bread with memo := some "(nil . \"" }
    displayRows (table [bread, silent, noted]) =
      .ok [⟨"2025-01-01", "¥-1000", "Food", "", ""⟩, ⟨"2025-01-01", "¥-1000", "Food", "", ""⟩,
        ⟨"2025-01-01", "¥-1000", "Food", "", "(nil . \""⟩] ∧
    (table [bread]).isEqual (table [silent]) = true ∧
    (table [bread]).isEqual (table [noted]) = false := by
  intro bread silent noted
  obtain ⟨-, -, hshown, -⟩ := table_of_transactions [bread, silent, noted]
  obtain ⟨-, -, -, hequal⟩ := table_of_transactions [bread]
  have hrows := hshown (by decide)
  refine ⟨hrows.trans (congrArg Except.ok (by decide +kernel)), (hequal _).mpr rfl, ?_⟩
  rw [Bool.eq_false_iff, ne_eq, hequal]
  decide

end Transaction

end TableLisp

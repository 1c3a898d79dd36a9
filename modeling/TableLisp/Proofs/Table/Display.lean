import Mathlib.Data.List.Basic
import TableLisp.Proofs.Text.Numeral
import TableLisp.Eval.Builtin
import TableLisp.Table.Display
import TableLisp.Table.Transaction

/-!
# Rows shown

The row of a transaction holds its fields under their names, so a field is found in it by a program
(`Transaction.associate_fields`) and by the display (`Transaction.field?_fields`) alike. Shown, the
row is what the transaction looks like (`Transaction.displayRow`): an amount is written, read again
and written once more, which comes to the same if it is not too long to be read.

A table is shown entry by entry, each as the rows that it stands for (`shownRows`), if every entry
can be shown at all (`IsShowable`). A group can be if its own entries can, so groups are shown as
their entries are, with or without their names (`displayRows_groupsValue`). If every integer in a
table can be written, then whatever keeps the table from being shown can be put into words
(`message?_of_displayRows`).
-/

namespace TableLisp

open Text

/-! ## Fields -/

namespace Transaction

/-- The fields of a transaction. -/
inductive Field
  | date | amount | category | account | memo
  deriving DecidableEq, Repr

namespace Field

def name : Field → String
  | date => "date"
  | amount => "amount"
  | category => "category"
  | account => "account"
  | memo => "memo"

def all : List Field :=
  [date, amount, category, account, memo]

/-- The value that a program finds for a field. -/
def value (tx : Transaction) : Field → Value
  | date => .str tx.date.text
  | amount => .int tx.amount
  | category => .str tx.category
  | account => .str tx.account
  | memo => .str (tx.memo.getD "")

/-- The text of a field. -/
def text (tx : Transaction) : Field → String
  | date => tx.date.text
  | amount => Numeral.text tx.amount
  | category => tx.category
  | account => tx.account
  | memo => tx.memo.getD ""

end Field

/-- The fields of a transaction with their names, as a row holds them. -/
def fields (tx : Transaction) : Value :=
  .ofList (Field.all.map fun field => .pair (.sym field.name) (field.value tx))

theorem toRow_eq (id : Int) (tx : Transaction) :
    tx.toRow id = .pair (.sym (rowName id)) tx.fields := rfl

theorem associate_fields (tx : Transaction) (field : Field) :
    Builtin.associate (.sym field.name) tx.fields =
      .ok (.pair (.sym field.name) (field.value tx)) := by
  cases field <;>
    simp [fields, Field.all, Field.name, Field.value, Value.ofList, Value.chain,
      Builtin.associate, Value.isEqual_iff]

theorem field?_fields (tx : Transaction) (field : Field) :
    tx.fields.field? field.name = some (field.value tx) := by
  cases field <;>
    simp [fields, Field.all, Field.name, Field.value, Value.ofList, Value.chain, Value.field?]

/-- The amount has no more digits than a numeral may have, so that it can be written and read. -/
def HasReadableAmount (tx : Transaction) : Prop :=
  Numeral.digitCount tx.amount ≤ Numeral.maxDigits

instance (tx : Transaction) : Decidable tx.HasReadableAmount :=
  inferInstanceAs (Decidable (_ ≤ _))

theorem HasReadableAmount.isWritable {tx : Transaction} (h : tx.HasReadableAmount) :
    Numeral.isWritable tx.amount = true :=
  decide_eq_true h

theorem displayText_value {tx : Transaction} (h : tx.HasReadableAmount) (field : Field) :
    (field.value tx).displayText = .ok (field.text tx) := by
  cases field with
  | amount => exact if_pos h.isWritable
  | _ => rfl

theorem fieldText?_toRow {tx : Transaction} (h : tx.HasReadableAmount) (id : Int) (field : Field) :
    (tx.toRow id).fieldText? field.name = .ok (some (field.text tx)) := by
  rw [toRow_eq, Value.fieldText?, field?_fields, Option.mapM_some, displayText_value h]
  rfl

/-! ## Rows -/

/-- The row of a transaction with its number. -/
def numberedRow (entry : Transaction × Nat) : Value :=
  entry.1.toRow entry.2

theorem rowsFrom_eq : ∀ (txs : List Transaction) (n : Nat),
    rowsFrom n txs = (txs.zipIdx n).map numberedRow
  | [], _ => rfl
  | tx :: rest, n => by
      rw [rowsFrom, List.zipIdx_cons, List.map_cons, rowsFrom_eq rest (n + 1)]
      rfl

/-- A transaction as it is shown. -/
def displayRow (tx : Transaction) : DisplayRow where
  date := tx.date.text
  amount := "¥" ++ Numeral.text tx.amount
  category := tx.category
  account := tx.account
  memo := tx.memo.getD ""

theorem ofValue_toRow {tx : Transaction} (h : tx.HasReadableAmount) (id : Int) :
    DisplayRow.ofValue (tx.toRow id) = .ok tx.displayRow := by
  have hamount : amountText (Numeral.text tx.amount) = "¥" ++ Numeral.text tx.amount := by
    rw [amountText, Numeral.readInteger?_text h]
  have hne : (Numeral.text tx.amount).isEmpty = false := by
    rw [Bool.eq_false_iff, ne_eq, String.isEmpty_iff]
    intro hempty
    exact Numeral.toList_text_ne_nil tx.amount (by rw [hempty]; rfl)
  have hdate := fieldText?_toRow h id .date
  have hamount' := fieldText?_toRow h id .amount
  have hcategory := fieldText?_toRow h id .category
  have haccount := fieldText?_toRow h id .account
  have hmemo := fieldText?_toRow h id .memo
  simp only [Field.name, Field.text] at hdate hamount' hcategory haccount hmemo
  simp only [DisplayRow.ofValue, hdate, hamount', hcategory, haccount, hmemo]
  simp [displayRow, Except.map, bind, Except.bind, pure, Except.pure, hamount, hne]

end Transaction

/-! ## Lists -/

/-- The rows that an entry of a table stands for: those of a group, or the one that it is. -/
def entryRows : Value → Except DisplayError (List DisplayRow)
  | .pair (.str _) rows => displayRows rows
  | row => (DisplayRow.ofValue row).map ([·])

def IsShowable (entry : Value) : Prop :=
  ∃ rows, entryRows entry = .ok rows

/-- The rows of an entry that can be shown. -/
def shownRows (entry : Value) : List DisplayRow :=
  ((entryRows entry).toOption).getD []

theorem IsShowable.entryRows_eq {entry : Value} (h : IsShowable entry) :
    entryRows entry = .ok (shownRows entry) := by
  obtain ⟨rows, hrows⟩ := h
  rw [shownRows, hrows]
  rfl

theorem displayRows_pair (entry rest : Value) :
    displayRows (.pair entry rest) = do
      let first ← entryRows entry
      let later ← displayRows rest
      return first ++ later := by
  fun_cases entryRows entry with
  | case1 name rows => rfl
  | case2 row hrow =>
      rw [displayRows]
      · cases DisplayRow.ofValue entry <;> rfl
      · exact hrow

theorem of_displayRows_pair {entry rest : Value} {rows : List DisplayRow}
    (h : displayRows (.pair entry rest) = .ok rows) :
    IsShowable entry ∧ ∃ later, displayRows rest = .ok later ∧ rows = shownRows entry ++ later := by
  rw [displayRows_pair] at h
  cases hentry : entryRows entry with
  | error e => simp [hentry, bind, Except.bind] at h
  | ok first =>
      have hshowable : IsShowable entry := ⟨first, hentry⟩
      cases hrest : displayRows rest with
      | error e => simp [hentry, hrest, bind, Except.bind] at h
      | ok later =>
          rw [hshowable.entryRows_eq, hrest] at h
          cases h
          exact ⟨hshowable, later, rfl, rfl⟩

/-- A table is shown entry by entry. -/
theorem displayRows_ofList : ∀ {entries : List Value}, (∀ entry ∈ entries, IsShowable entry) →
    displayRows (.ofList entries) = .ok (entries.flatMap shownRows)
  | [], _ => rfl
  | entry :: rest, h => by
      obtain ⟨hentry, hrest⟩ := List.forall_mem_cons.mp h
      have hlist : Value.ofList (entry :: rest) = .pair entry (.ofList rest) := rfl
      rw [hlist, displayRows_pair, hentry.entryRows_eq, displayRows_ofList hrest]
      rfl

theorem displayRows_ofList_append (entries rest : List Value) :
    displayRows (.ofList (entries ++ rest)) = do
      let first ← displayRows (.ofList entries)
      let later ← displayRows (.ofList rest)
      return first ++ later := by
  induction entries with
  | nil =>
      have hnil : displayRows (.ofList []) = .ok [] := rfl
      rw [List.nil_append, hnil]
      cases displayRows (.ofList rest) <;> rfl
  | cons entry entries ih =>
      have hlist (tail : List Value) : Value.ofList (entry :: tail) = .pair entry (.ofList tail) :=
        rfl
      rw [List.cons_append, hlist, hlist, displayRows_pair, displayRows_pair, ih]
      cases entryRows entry with
      | error e => rfl
      | ok first =>
          cases displayRows (.ofList entries) with
          | error e => rfl
          | ok middle =>
              cases displayRows (.ofList rest) with
              | error e => rfl
              | ok later =>
                  simp only [bind, Except.bind, pure, Except.pure, List.append_assoc]

/-- It can be shown only if every entry can. -/
theorem isShowable_of_displayRows : ∀ {entries : List Value} {rows : List DisplayRow},
    displayRows (.ofList entries) = .ok rows → ∀ entry ∈ entries, IsShowable entry
  | [], _, _ => List.forall_mem_nil _
  | entry :: rest, rows, h => by
      obtain ⟨hentry, later, hrest, -⟩ := of_displayRows_pair h
      exact List.forall_mem_cons.mpr ⟨hentry, isShowable_of_displayRows hrest⟩

/-- An entry that is no group is one row. -/
theorem entryRows_row {row : Value} (h : row.isGroup = false) :
    entryRows row = (DisplayRow.ofValue row).map ([·]) := by
  rw [entryRows.eq_def]
  split
  · cases h
  · rfl

theorem entryRows_of_ofValue {row : Value} {shown : DisplayRow} (h : row.isGroup = false)
    (hrow : DisplayRow.ofValue row = .ok shown) : entryRows row = .ok [shown] := by
  rw [entryRows_row h, hrow]
  rfl

theorem shownRows_row_ne_nil {row : Value} (h : row.isGroup = false) (hshowable : IsShowable row) :
    shownRows row ≠ [] := by
  obtain ⟨rows, hrows⟩ := hshowable
  rw [shownRows, hrows]
  rw [entryRows_row h] at hrows
  cases hrow : DisplayRow.ofValue row with
  | error e =>
      rw [hrow] at hrows
      cases hrows
  | ok shown =>
      rw [hrow] at hrows
      cases hrows
      exact List.cons_ne_nil _ _

theorem displayRows_ofList_iff {entries : List Value} :
    (∃ rows, displayRows (.ofList entries) = .ok rows) ↔ ∀ entry ∈ entries, IsShowable entry :=
  ⟨fun ⟨_, hrows⟩ => isShowable_of_displayRows hrows, fun h => ⟨_, displayRows_ofList h⟩⟩

theorem shownRows_group {name : String} {entries : List Value}
    (h : ∀ entry ∈ entries, IsShowable entry) :
    shownRows (.pair (.str name) (.ofList entries)) = entries.flatMap shownRows := by
  rw [shownRows, entryRows, displayRows_ofList h]
  rfl

theorem isShowable_group_iff {name : String} {entries : List Value} :
    IsShowable (.pair (.str name) (.ofList entries)) ↔ ∀ entry ∈ entries, IsShowable entry :=
  displayRows_ofList_iff

/-! ## What can be written -/

namespace Value

theorem isWritable_pair {head tail : Value} :
    (pair head tail).isWritable = true ↔ head.isWritable = true ∧ tail.isWritable = true := by
  rw [isWritable, Bool.and_eq_true]

theorem isWritable_ofList {elements : List Value} :
    (ofList elements).isWritable = true ↔ ∀ element ∈ elements, element.isWritable = true := by
  induction elements with
  | nil => exact iff_of_true rfl (List.forall_mem_nil _)
  | cons head rest ih =>
      have hlist : ofList (head :: rest) = pair head (ofList rest) := rfl
      rw [hlist, isWritable_pair, ih, List.forall_mem_cons]

theorem displayText_of_isWritable {v : Value} (h : v.isWritable = true) :
    ∃ text, v.displayText = .ok text := by
  fun_cases displayText v with
  | case6 => contradiction
  | _ => exact ⟨_, rfl⟩

theorem isWritable_of_field? {name : String} {fields v : Value} (h : fields.isWritable = true)
    (hfield : fields.field? name = some v) : v.isWritable = true := by
  induction fields with
  | pair head rest _ ih =>
      obtain ⟨hhead, hrest⟩ := isWritable_pair.mp h
      cases head with
      | pair key v' =>
          rw [Value.field?] at hfield
          split at hfield
          · exact Option.some.inj hfield ▸ (isWritable_pair.mp hhead).2
          · exact ih hrest hfield
      | _ => exact ih hrest hfield
  | _ => cases hfield

theorem fieldText?_of_isWritable {row : Value} (h : row.isWritable = true) (name : String) :
    ∃ text?, row.fieldText? name = .ok text? := by
  fun_cases fieldText? row name with
  | case1 id fields =>
      cases hfield : fields.field? name with
      | none => exact ⟨none, rfl⟩
      | some v =>
          have hv := isWritable_of_field? (isWritable_pair.mp h).2 hfield
          obtain ⟨text, htext⟩ := displayText_of_isWritable hv
          refine ⟨some text, ?_⟩
          rw [Option.mapM_some, htext]
          rfl
  | case2 => exact ⟨none, rfl⟩

end Value

theorem DisplayRow.ofValue_of_isWritable {row : Value} (h : row.isWritable = true) :
    ∃ shown, ofValue row = .ok shown := by
  obtain ⟨date, hdate⟩ := Value.fieldText?_of_isWritable h "date"
  obtain ⟨amount, hamount⟩ := Value.fieldText?_of_isWritable h "amount"
  obtain ⟨category, hcategory⟩ := Value.fieldText?_of_isWritable h "category"
  obtain ⟨account, haccount⟩ := Value.fieldText?_of_isWritable h "account"
  obtain ⟨memo, hmemo⟩ := Value.fieldText?_of_isWritable h "memo"
  simp only [ofValue, hdate, hamount, hcategory, haccount, hmemo]
  exact ⟨_, rfl⟩

theorem error_of_both {ε α β γ : Type} {x : Except ε α} {y : Except ε β} {f : α → β → γ} {e : ε}
    (h : (do let a ← x; let b ← y; return f a b) = .error e) : x = .error e ∨ y = .error e := by
  cases x with
  | error _ =>
      cases h
      exact .inl rfl
  | ok a =>
      cases y with
      | error _ =>
          cases h
          exact .inr rfl
      | ok b => cases h

/-- A failure to show that can be put into words, unlike a numeral that is too long. -/
def FailsInWords (outcome : Except DisplayError α) : Prop :=
  ∃ e message, outcome = .error e ∧ e.message? = some message

/-- If a table can be written, what keeps it from being shown can be put into words. -/
theorem message?_of_displayRows {v : Value} {e : DisplayError} (hwritable : v.isWritable = true)
    (h : displayRows v = .error e) : ∃ message, e.message? = some message := by
  fun_induction displayRows v with
  | case1 name rows rest ihrows ihrest =>
      obtain ⟨hgroup, hrest⟩ := Value.isWritable_pair.mp hwritable
      rcases error_of_both h with hfirst | hlater
      · exact ihrows (Value.isWritable_pair.mp hgroup).2 hfirst
      · exact ihrest hrest hlater
  | case2 row rest _ ih =>
      obtain ⟨hrow, hrest⟩ := Value.isWritable_pair.mp hwritable
      rcases error_of_both h with hfirst | hlater
      · obtain ⟨shown, hshown⟩ := DisplayRow.ofValue_of_isWritable hrow
        rw [hshown] at hfirst
        cases hfirst
      · exact ih hrest hlater
  | case3 => cases h
  | case4 terminal =>
      cases h
      exact ⟨_, if_pos hwritable⟩

theorem failsInWords_iff {v : Value} (h : v.isWritable = true) :
    FailsInWords (displayRows v) ↔ ∃ e, displayRows v = .error e := by
  constructor
  · rintro ⟨e, -, herror, -⟩
    exact ⟨e, herror⟩
  · rintro ⟨e, herror⟩
    obtain ⟨message, hmessage⟩ := message?_of_displayRows h herror
    exact ⟨e, message, herror, hmessage⟩

/-! ## Groups -/

/-- The group that an entry is, with the rows that are shown of it. -/
def shownGroup? : Value → Option DisplayGroup
  | .pair (.str name) rows => some ⟨name, shownRows (.pair (.str name) rows)⟩
  | _ => none

/-- The group that an entry is has the rows of the entry, and a row on its own is none. -/
theorem shownGroup?_cases (entry : Value) :
    (entry.isGroup = true ∧ ∃ name, shownGroup? entry = some ⟨name, shownRows entry⟩) ∨
      entry.isGroup = false ∧ shownGroup? entry = none := by
  fun_cases shownGroup? entry with
  | case1 name rows => exact .inl ⟨rfl, name, rfl⟩
  | case2 _ hrow =>
      refine .inr ⟨?_, rfl⟩
      rw [Value.isGroup]
      exact hrow

theorem displayGroups_pair {entry : Value} (h : IsShowable entry) (rest : Value) :
    displayGroups (.pair entry rest) =
      (displayGroups rest).map ((shownGroup? entry).toList ++ ·) := by
  fun_cases shownGroup? entry with
  | case1 name rows =>
      have hrows : displayRows rows = .ok (shownRows (.pair (.str name) rows)) := h.entryRows_eq
      rw [displayGroups, hrows]
      cases displayGroups rest <;> rfl
  | case2 _ hrow =>
      rw [displayGroups]
      · cases displayGroups rest <;> rfl
      · exact hrow

/-- A table is shown in groups entry by entry. -/
theorem displayGroups_ofList : ∀ {entries : List Value}, (∀ entry ∈ entries, IsShowable entry) →
    displayGroups (.ofList entries) = .ok (entries.filterMap shownGroup?)
  | [], _ => rfl
  | entry :: rest, h => by
      obtain ⟨hentry, hrest⟩ := List.forall_mem_cons.mp h
      have hlist : Value.ofList (entry :: rest) = .pair entry (.ofList rest) := rfl
      rw [hlist, displayGroups_pair hentry, displayGroups_ofList hrest, List.filterMap_cons]
      cases shownGroup? entry <;> rfl

section

variable {groups : List (String × List Value)}

/-- Groups are shown as their entries are without them, and fail as these do. -/
theorem displayRows_groupsValue : ∀ groups : List (String × List Value),
    displayRows (Builtin.groupsValue groups) = displayRows (.ofList (groups.flatMap Prod.snd))
  | [] => rfl
  | (name, entries) :: rest => by
      have hvalue : Builtin.groupsValue ((name, entries) :: rest) =
          .pair (.pair (.str name) (.ofList entries)) (Builtin.groupsValue rest) := rfl
      rw [hvalue, displayRows_pair, entryRows, displayRows_groupsValue rest, List.flatMap_cons,
        displayRows_ofList_append]

theorem displayGroups_groupsValue (h : ∀ group ∈ groups, ∀ entry ∈ group.2, IsShowable entry) :
    displayGroups (Builtin.groupsValue groups) =
      .ok (groups.map fun group => ⟨group.1, group.2.flatMap shownRows⟩) := by
  have hgroups : ∀ entry ∈ groups.map fun group => Value.pair (.str group.1) (.ofList group.2),
      IsShowable entry :=
    List.forall_mem_map.mpr fun group hgroup => isShowable_group_iff.mpr (h group hgroup)
  rw [Builtin.groupsValue, displayGroups_ofList hgroups, List.filterMap_map,
    ← List.filterMap_eq_map]
  refine congrArg _ (List.filterMap_congr fun group hgroup => ?_)
  rw [Function.comp_apply, shownGroup?, shownRows_group (h group hgroup)]
  rfl

end

/-! ## Rows of transactions in lists -/

namespace Transaction

theorem entryRows_numberedRow {entry : Transaction × Nat} (h : entry.1.HasReadableAmount) :
    entryRows (numberedRow entry) = .ok [entry.1.displayRow] :=
  entryRows_of_ofValue rfl (ofValue_toRow h entry.2)

theorem isShowable_numberedRow {entry : Transaction × Nat} (h : entry.1.HasReadableAmount) :
    IsShowable (numberedRow entry) :=
  ⟨_, entryRows_numberedRow h⟩

/-- Rows of transactions are shown as the transactions. -/
theorem shownRows_numbered {numbered : List (Transaction × Nat)}
    (h : ∀ entry ∈ numbered, entry.1.HasReadableAmount) :
    (numbered.map numberedRow).flatMap shownRows = (numbered.map Prod.fst).map displayRow := by
  have hrow : ∀ entry ∈ numbered, shownRows (numberedRow entry) = [entry.1.displayRow] := by
    intro entry hentry
    rw [shownRows, entryRows_numberedRow (h entry hentry)]
    rfl
  rw [List.flatMap_map, List.flatMap_congr hrow, List.map_map, List.map_eq_flatMap]
  rfl

end Transaction

end TableLisp

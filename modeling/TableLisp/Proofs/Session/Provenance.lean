import TableLisp.Proofs.Session.Soundness

/-!
# Where data comes from

A session makes no atoms: every integer and every symbol in its values was in a value that the
session was opened with, or is written in one of its programs. Strings come from there as well, or
are the keys of a grouping, the names of such symbols and the decimal texts of such integers
(`no_data_invented`). This is the soundness of the session for the world of what it has been given
(`World.sound_runAll`).
-/

namespace TableLisp

open Text

/-- The integers that source text can spell are those of a signed word. -/
theorem Form.Readable.inWordRange {form : Form} (h : form.Readable) {n : Int}
    (hn : .int n ∈ form.toValue.leaves) : inWordRange n = true := by
  induction h with
  | int hrange =>
      obtain rfl := Value.int.inj (List.mem_singleton.mp hn)
      exact hrange
  | nil | str _ | sym _ => cases List.mem_singleton.mp hn
  | list _ _ ih =>
      rw [leaves_toValue_list, List.mem_append, List.mem_flatMap] at hn
      rcases hn with ⟨item, hitem, hn⟩ | hn
      · exact ih item hitem hn
      · cases List.mem_singleton.mp hn
  | dotted _ _ _ ih ihtail =>
      rw [leaves_toValue_dotted, List.mem_append, List.mem_flatMap] at hn
      rcases hn with ⟨item, hitem, hn⟩ | hn
      · exact ih item hitem hn
      · exact ihtail hn

theorem inWordRange_of_given {limit : Int} {bindings : List (String × Value)}
    {codes : List String} {n : Int}
    (hbindings : ∀ binding ∈ bindings, .int n ∈ binding.2.leaves → inWordRange n = true)
    (hn : .int n ∈ Given limit bindings codes) : inWordRange n = true := by
  rcases hn with ⟨binding, hmem, hn⟩ | ⟨code, -, forms, hparse, form, hform, hn⟩
  · exact hbindings binding hmem hn
  · exact (readableAt_of_parse hparse form hform).readable.inWordRange hn

namespace Session

/-- **No data is invented.** A session is opened on any store, with values that hold no closures,
and runs programs. Every integer and every symbol in a value that it comes upon has been given, and
every string too unless it is the name of a given symbol or the decimal text of a given integer. So
if the integers that it is opened with fit in a signed word, all its integers do. -/
theorem no_data_invented (store : Store) (limit : Int) (bindings : List (String × Value))
    (codes : List String) (hplain : ∀ binding ∈ bindings, binding.2.closures = []) :
    let done := (openOn store limit bindings).runAll codes
    let given := Given limit bindings codes
    ∀ v, ComeUpon done.1 done.2 v →
      (∀ n, .int n ∈ v.leaves → .int n ∈ given) ∧
      (∀ name, .sym name ∈ v.leaves → .sym name ∈ given) ∧
      (∀ text, .str text ∈ v.leaves → .str text ∈ given ∨ .sym text ∈ given ∨
        ∃ n, .int n ∈ given ∧ text = Numeral.text n) ∧
      ((∀ binding ∈ bindings, ∀ n, .int n ∈ binding.2.leaves → inWordRange n = true) →
        ∀ n, .int n ∈ v.leaves → inWordRange n = true) := by
  intro done given v hv
  have hsound := (World.sound_runAll store limit hplain (Set.Subset.refl given)).2 v hv
  have hints : ∀ n, .int n ∈ v.leaves → .int n ∈ given := by
    intro n hn
    cases hsound.of_mem_leaves hn with
    | int h => exact h
  refine ⟨hints, fun name hname => ?_, fun text htext => ?_, fun hrange n hn => ?_⟩
  · cases hsound.of_mem_leaves hname with
    | sym h => exact h
  · cases hsound.of_mem_leaves htext with
    | str h => exact h
  · exact inWordRange_of_given (fun binding hmem => hrange binding hmem n) (hints n hn)

/-- Rows are grouped by an integer, by a symbol that the program quotes, and by a string. -/
theorem no_data_invented_by_grouping :
    let row (key : Value) : Value := .pair key .nil
    let rows := [row (.int (-7)), row (.sym "b"), row (.str "c")]
    let bindings := [("table", .ofList (rows.take 1)), ("c", rows[2])]
    let codes := ["(define rows (cons (car table) (cons '(b) (cons c ()))))",
      "(define groups (group-by rows (lambda (row) (car row))))"]
    let done := (openOn .empty 9 bindings).runAll codes
    let given := Given 9 bindings codes
    let group (key : String) (member : Value) : Value := .pair (.str key) (.ofList [member])
    let v : Value := .ofList [group "-7" rows[0], group "b" rows[1], group "c" rows[2]]
    done.2.state.store.get? done.2.global "groups" = some v ∧
      (∀ n, .int n ∈ v.leaves → .int n ∈ given) ∧
      (∀ name, .sym name ∈ v.leaves → .sym name ∈ given) ∧
      (∀ text, .str text ∈ v.leaves → .str text ∈ given ∨ .sym text ∈ given ∨
        ∃ n, .int n ∈ given ∧ text = Numeral.text n) ∧
      ((∀ binding ∈ bindings, ∀ n, .int n ∈ binding.2.leaves → inWordRange n = true) →
        ∀ n, .int n ∈ v.leaves → inWordRange n = true) := by
  intro row rows bindings codes done given group v
  have hbound : done.2.state.store.get? done.2.global "groups" = some v := by decide +kernel
  exact ⟨hbound, no_data_invented .empty 9 bindings codes (by decide +kernel) v
    (.bound (Nat.le_refl _) hbound)⟩

end Session

end TableLisp

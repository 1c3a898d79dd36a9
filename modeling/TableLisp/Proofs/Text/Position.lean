import Mathlib.Algebra.GroupWithZero.Nat
import TableLisp.Text.Line

/-!
# Places in a text

The place of an offset depends on nothing but the text before it. So text behind an offset does not
matter to its place, and a text that is put behind a line feed keeps its columns, while its lines
are counted on from those before. Split at its line feeds, a text shows the place as well: the lines
before and the column lead to the offset, and the line of the place begins with the last line of the
text before (`getElem?_splitOn`).
-/

namespace TableLisp.Text

/-- The place behind some characters. -/
theorem position_behind (before after : List Char) :
    Position.ofOffset (before ++ after) before.length =
      ⟨before.count '\n', lastLineLength before⟩ := by
  have hle := lastLineLength_le before
  simp only [Position.ofOffset, List.take_left, Position.mk.injEq, true_and]
  omega

/-! ## The last line -/

/-- The characters after the last line feed. -/
def lastLine (cs : List Char) : List Char :=
  (cs.reverse.takeWhile (· != '\n')).reverse

theorem length_lastLine (cs : List Char) : (lastLine cs).length = lastLineLength cs :=
  List.length_reverse

theorem lastLine_joined (first second : List Char) :
    lastLine (first ++ '\n' :: second) = lastLine second := by
  simp only [lastLine, List.reverse_append, List.reverse_cons, List.append_assoc,
    List.takeWhile_append]
  split
  · next hall => simp [(List.takeWhile_prefix _).eq_of_length hall]
  · rfl

theorem lastLine_of_not_mem {cs : List Char} (h : '\n' ∉ cs) : lastLine cs = cs := by
  have hall : ∀ c ∈ cs.reverse, (c != '\n') = true := fun c hc =>
    bne_iff_ne.mpr fun heq => h (heq ▸ List.mem_reverse.mp hc)
  rw [lastLine, ← List.append_nil cs.reverse, List.takeWhile_append_of_pos hall,
    List.takeWhile_nil, List.append_nil, List.reverse_reverse]

/-- A character in front matters to the last line only if there is no other line. -/
theorem lastLine_cons (c : Char) (cs : List Char) :
    lastLine (c :: cs) = if c = '\n' ∨ '\n' ∈ cs then lastLine cs else c :: cs := by
  by_cases hfeed : '\n' ∈ cs
  · obtain ⟨first, second, rfl⟩ := List.append_of_mem hfeed
    rw [if_pos (.inr hfeed), lastLine_joined, ← List.cons_append, lastLine_joined]
  · by_cases hc : c = '\n'
    · rw [if_pos (.inl hc), hc]
      exact lastLine_joined [] cs
    · have hnone : '\n' ∉ c :: cs := fun hmem =>
        (List.mem_cons.mp hmem).elim (fun heq => hc heq.symm) hfeed
      rw [if_neg (not_or.mpr ⟨hc, hfeed⟩), lastLine_of_not_mem hnone]

/-- What ends the last line ends the text. -/
theorem getLast?_of_lastLine {cs : List Char} {c : Char} (h : (lastLine cs).getLast? = some c) :
    cs.getLast? = some c := by
  rw [lastLine, List.getLast?_reverse, List.head?_takeWhile, List.head?_reverse,
    Option.filter_eq_some_iff] at h
  exact h.1

/-- What stands behind the last line feed, if there is one, is the last line. -/
theorem length_sub_lastLineLength (cs : List Char) :
    cs.length - lastLineLength cs =
      match lastLineFeed? cs with
      | none => 0
      | some feed => feed + 1 := by
  have hrun : lastLineLength cs = cs.reverse.findIdx (· == '\n') := by
    have hnot : (fun c => !(c != '\n')) = (· == '\n') := funext fun c => Bool.not_not _
    have hle : cs.reverse.findIdx (· == '\n') ≤ cs.reverse.length := List.findIdx_le_length
    rw [lastLineLength, List.takeWhile_eq_take_findIdx_not, hnot, List.length_take_of_le hle]
  rw [hrun, lastLineFeed?]
  cases hfind : cs.reverse.findIdx? (· == '\n') with
  | none =>
      rw [List.findIdx?_eq_none_iff_findIdx_eq] at hfind
      rw [hfind, List.length_reverse, Nat.sub_self, Option.map_none]
  | some fromEnd =>
      obtain ⟨hlt, hidx⟩ := List.findIdx?_eq_some_iff_findIdx_eq.mp hfind
      rw [List.length_reverse] at hlt
      rw [hidx]
      show cs.length - fromEnd = cs.length - 1 - fromEnd + 1
      omega

/-! ## Lines -/

theorem splitOn_cons (c : Char) (cs : List Char) :
    (c :: cs).splitOn '\n' =
      if c = '\n' then [] :: cs.splitOn '\n' else (cs.splitOn '\n').modifyHead (c :: ·) := by
  simp only [List.splitOn, List.splitOnP_cons_eq_if_modifyHead, beq_iff_eq]

/-- The first line is what stands in front of the first line feed. -/
theorem splitOn_eq_cons (cs : List Char) :
    ∃ later, cs.splitOn '\n' = cs.takeWhile (· != '\n') :: later := by
  induction cs with
  | nil => exact ⟨[], rfl⟩
  | cons c cs ih =>
      obtain ⟨later, hsplit⟩ := ih
      rw [splitOn_cons, hsplit]
      by_cases hc : c = '\n'
      · rw [if_pos hc, List.takeWhile_cons_of_neg (by simp [hc])]
        exact ⟨_, rfl⟩
      · rw [if_neg hc, List.takeWhile_cons_of_pos (by simp [hc])]
        exact ⟨later, rfl⟩

/-- Some text ends in that line of a longer one that it has as many line feeds in front of. The line
has its last line and what follows up to a line feed. -/
theorem splitOn_append (before after : List Char) :
    ∃ done later, (before ++ after).splitOn '\n' =
        done ++ (lastLine before ++ after.takeWhile (· != '\n')) :: later ∧
      done.length = before.count '\n' ∧
      (done.map (·.length + 1)).sum + lastLineLength before = before.length := by
  induction before with
  | nil =>
      obtain ⟨later, hsplit⟩ := splitOn_eq_cons after
      exact ⟨[], later, hsplit, rfl, rfl⟩
  | cons c before ih =>
      obtain ⟨done, later, hsplit, hcount, hsum⟩ := ih
      rw [← length_lastLine] at hsum ⊢
      rw [List.cons_append, splitOn_cons, lastLine_cons, hsplit]
      by_cases hc : c = '\n'
      · subst hc
        refine ⟨[] :: done, later, ?_, ?_, ?_⟩
        · rw [if_pos rfl, if_pos (.inl rfl), List.cons_append]
        · rw [List.length_cons, List.count_cons_self, hcount]
        · simp only [true_or, if_true, List.map_cons, List.sum_cons, List.length_cons,
            List.length_nil]
          omega
      · rw [if_neg hc, List.count_cons_of_ne hc]
        cases done with
        | nil =>
            have hnone : '\n' ∉ before := List.count_eq_zero.mp hcount.symm
            rw [if_neg (not_or.mpr ⟨hc, hnone⟩), lastLine_of_not_mem hnone]
            exact ⟨[], later, rfl, hcount, Nat.zero_add _⟩
        | cons first done =>
            have hfeed : '\n' ∈ before := by
              rw [← List.count_pos_iff, ← hcount]
              exact Nat.succ_pos _
            rw [if_pos (.inr hfeed)]
            refine ⟨(c :: first) :: done, later, rfl, hcount, ?_⟩
            simp only [List.map_cons, List.sum_cons, List.length_cons] at hsum ⊢
            omega

theorem getElem?_splitOn (before after : List Char) :
    ((before ++ after).splitOn '\n')[before.count '\n']? =
      some (lastLine before ++ after.takeWhile (· != '\n')) := by
  obtain ⟨done, later, hsplit, hcount, -⟩ := splitOn_append before after
  rw [hsplit, ← hcount, List.getElem?_append_right (Nat.le_refl _), Nat.sub_self,
    List.getElem?_cons_zero]

namespace Position

/-- An offset is as far into its line as it is behind the lines before, each with its line feed. -/
theorem ofOffset_lines {text : List Char} {offset : Nat} (h : offset ≤ text.length) :
    let lines := text.splitOn '\n'
    let place := ofOffset text offset
    ((lines.take place.line).map (·.length + 1)).sum + place.column = offset ∧
      ∃ line, lines[place.line]? = some line ∧ place.column ≤ line.length := by
  have hlength : (text.take offset).length = offset := List.length_take_of_le h
  have hplace := position_behind (text.take offset) (text.drop offset)
  have hline := getElem?_splitOn (text.take offset) (text.drop offset)
  obtain ⟨done, later, hsplit, hcount, hsum⟩ :=
    splitOn_append (text.take offset) (text.drop offset)
  rw [List.take_append_drop] at hplace hline hsplit
  rw [hlength] at hplace hsum
  rw [hplace]
  refine ⟨?_, _, hline, ?_⟩
  · rwa [hsplit, ← hcount, List.take_left]
  · rw [List.length_append, length_lastLine]
    exact Nat.le_add_right ..

/-- An editor finds the place that the reader gives. -/
theorem inBuffer_eq_ofOffset (buffer : List Char) (offset : Nat) :
    inBuffer buffer offset = ofOffset buffer offset := by
  have hlast := length_sub_lastLineLength (buffer.take offset)
  simp only [inBuffer, ofOffset, hlast]
  cases lastLineFeed? (buffer.take offset) with
  | none => rfl
  | some feed => exact congrArg (mk _) (Nat.sub_sub ..)

/-- Text behind an offset does not matter to its place. -/
theorem ofOffset_append {text : List Char} {offset : Nat} (h : offset ≤ text.length)
    (more : List Char) : ofOffset (text ++ more) offset = ofOffset text offset := by
  simp only [ofOffset, List.take_append_of_le_length h]

/-- Behind a line feed, columns are as they are in a text by itself. -/
theorem ofOffset_joined (first second : List Char) (offset : Nat) :
    ofOffset (first ++ '\n' :: second) (offset + (first.length + 1)) =
      ⟨(ofOffset second offset).line + (first.count '\n' + 1),
        (ofOffset second offset).column⟩ := by
  have htake : (first ++ '\n' :: second).take (offset + (first.length + 1)) =
      first ++ '\n' :: second.take offset := by
    rw [List.take_append, List.take_of_length_le (by omega)]
    have hleft : offset + (first.length + 1) - first.length = offset + 1 := by omega
    rw [hleft, List.take_succ_cons]
  have hle := lastLineLength_le (second.take offset)
  have hlast : lastLineLength (first ++ '\n' :: second.take offset) =
      lastLineLength (second.take offset) := by
    rw [← length_lastLine, lastLine_joined, length_lastLine]
  simp only [ofOffset, htake, hlast, List.count_append, List.count_cons_self,
    List.length_append, List.length_cons, mk.injEq]
  omega

end Position

end TableLisp.Text

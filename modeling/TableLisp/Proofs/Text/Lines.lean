import TableLisp.Proofs.Text.Position
import TableLisp.Text.Blank

/-!
# Lines of an editor

The lines of an editor keep their breaks and end at more characters than line feeds, so they are
not the lines that places are counted in. What a character does to them is told from its front
(`splitLines_of_inside`, `splitLines_of_break`). Where line feeds are the only breaks, the lines of
either kind differ in the line feed at the end (`getD_splitLines`).
-/

namespace TableLisp.Text

/-! ## Lines one character at a time -/

/-- The first character of a line may be put in front of it later. -/
theorem splitLinesFrom_concat (line text : List Char) (c : Char) :
    splitLinesFrom (line ++ [c]) text =
      match splitLinesFrom line text with
      | [] => [[c]]
      | first :: later => (c :: first) :: later := by
  fun_induction splitLinesFrom line text with
  | case1 line h => simp_all [splitLinesFrom]
  | case2 line h => simp [splitLinesFrom]
  | case3 line rest ih => simp [splitLinesFrom]
  | case4 line d rest hreturn hbreak ih =>
      rw [splitLinesFrom]
      · simp [hbreak]
      · exact hreturn
  | case5 line d rest hreturn hbreak ih =>
      rw [splitLinesFrom]
      · simpa [hbreak] using ih
      · exact hreturn

theorem splitLines_of_inside {c : Char} (h : isLineBreak c = false) (rest : List Char) :
    splitLines (c :: rest) =
      match splitLines rest with
      | [] => [[c]]
      | first :: later => (c :: first) :: later := by
  have hreturn : ∀ later, c = '\r' → rest = '\n' :: later → False := by
    rintro later rfl -
    cases h
  rw [splitLines, splitLinesFrom, if_neg (by simp [h])]
  · exact splitLinesFrom_concat [] rest c
  · exact hreturn

/-- A line ends behind a line break, or behind the line feed after it. -/
theorem splitLines_of_break {c : Char} (h : isLineBreak c = true) (rest : List Char) :
    splitLines (c :: rest) = [c] :: splitLines rest ∨
      ∃ later, rest = '\n' :: later ∧ splitLines (c :: rest) = [c, '\n'] :: splitLines later := by
  by_cases hreturn : ∃ later, c = '\r' ∧ rest = '\n' :: later
  · obtain ⟨later, rfl, rfl⟩ := hreturn
    exact .inr ⟨later, rfl, by simp [splitLines, splitLinesFrom]⟩
  · left
    rw [splitLines, splitLinesFrom, if_pos h]
    · rfl
    · exact fun later hc hrest => hreturn ⟨later, hc, hrest⟩

theorem splitLines_of_feed (rest : List Char) :
    splitLines ('\n' :: rest) = ['\n'] :: splitLines rest := by
  simp [splitLines, splitLinesFrom, isLineBreak]

/-- A character is a line of its own, or it stands in front of the first line. -/
theorem splitLines_cons (c : Char) (rest : List Char) :
    splitLines (c :: rest) = [c] :: splitLines rest ∨
      ∃ first later, splitLines rest = first :: later ∧
        splitLines (c :: rest) = (c :: first) :: later := by
  cases hbreak : isLineBreak c with
  | true =>
      rcases splitLines_of_break hbreak rest with hsplit | ⟨later, rfl, hsplit⟩
      · exact .inl hsplit
      · exact .inr ⟨['\n'], splitLines later, splitLines_of_feed later, hsplit⟩
  | false =>
      have hsplit := splitLines_of_inside hbreak rest
      cases hrest : splitLines rest with
      | nil => exact .inl (by rw [hsplit, hrest])
      | cons first later => exact .inr ⟨first, later, rfl, by rw [hsplit, hrest]⟩

/-! ## Lines that line feeds end -/

theorem isBlank_of_isLineBreak {c : Char} (h : isLineBreak c = true) : isBlank c = true := by
  simp only [isLineBreak, Bool.or_eq_true, Bool.and_eq_true, decide_eq_true_eq] at h
  simp only [isBlank, Bool.or_eq_true, Bool.and_eq_true, decide_eq_true_eq]
  simp only [beq_iff_eq] at *
  omega

/-- Where line feeds are the only breaks, a line is the same for an editor, but for the line feed
behind it. An editor does not see an empty line at the end of a text. -/
theorem getD_splitLines {text : List Char}
    (h : ∀ c ∈ text, isLineBreak c = true → c = '\n') {number : Nat} {line : List Char}
    (hline : (text.splitOn '\n')[number]? = some line) :
    ∃ feed, (feed = [] ∨ feed = ['\n']) ∧ (splitLines text)[number]?.getD [] = line ++ feed := by
  induction text generalizing number line with
  | nil =>
      cases number with
      | zero =>
          obtain rfl := Option.some.inj hline
          exact ⟨[], .inl rfl, rfl⟩
      | succ number => cases hline
  | cons c rest ih =>
      obtain ⟨hc, hrest⟩ := List.forall_mem_cons.mp h
      rw [splitOn_cons] at hline
      by_cases hfeed : c = '\n'
      · subst hfeed
        rw [if_pos rfl] at hline
        rw [splitLines_of_feed]
        cases number with
        | zero =>
            obtain rfl := Option.some.inj hline
            exact ⟨['\n'], .inr rfl, rfl⟩
        | succ number => exact ih hrest hline
      · have hinside : isLineBreak c = false := Bool.eq_false_iff.mpr (mt hc hfeed)
        obtain ⟨later, hsplit⟩ := splitOn_eq_cons rest
        rw [if_neg hfeed, hsplit, List.modifyHead_cons] at hline
        rw [hsplit] at ih
        rw [splitLines_of_inside hinside]
        cases number with
        | zero =>
            obtain rfl := Option.some.inj hline
            obtain ⟨feed, hends, hfirst⟩ := ih hrest (List.getElem?_cons_zero ..)
            refine ⟨feed, hends, ?_⟩
            rw [List.cons_append, ← hfirst]
            cases splitLines rest <;> rfl
        | succ number =>
            have hnext : (rest.takeWhile (· != '\n') :: later)[number + 1]? = some line := hline
            obtain ⟨feed, hends, hlater⟩ := ih hrest hnext
            refine ⟨feed, hends, ?_⟩
            rw [← hlater]
            cases splitLines rest <;> rfl

theorem getElem?_splitLines {text : List Char}
    (h : ∀ c ∈ text, isLineBreak c = true → c = '\n') {number : Nat} {line : List Char}
    (hline : (text.splitOn '\n')[number]? = some line) (hne : line ≠ []) :
    ∃ feed, (feed = [] ∨ feed = ['\n']) ∧ (splitLines text)[number]? = some (line ++ feed) := by
  obtain ⟨feed, hfeed, hget⟩ := getD_splitLines h hline
  refine ⟨feed, hfeed, ?_⟩
  cases hfound : (splitLines text)[number]? with
  | none => simp [hfound, hne] at hget
  | some found => rw [← hget, hfound, Option.getD_some]

end TableLisp.Text

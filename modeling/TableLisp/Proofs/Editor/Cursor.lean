import TableLisp.Editor.Cursor

/-!
# The word under the cursor

The word around a character of a line is found by two walks from there, one to the left and one to
the right, each for as long as no word break is in the way (`Cursor.wordAt_eq_walks`). The walk to the
left looks at the character in front of it, so it has no answer where there is none, and that is so
exactly if it sets out from beyond the end of the line (`Cursor.walkLeft?_eq_none_iff`).

Where a walk ends there is a word break or an end of the line, so what the two have come over is a
word (`Cursor.IsWord`), and around a character there is only one (`Cursor.IsWord.unique`).
-/

namespace TableLisp.Cursor

open Text

variable {cs : List Char} {column start stop start' stop' : Nat}

/-! ## Words of a line -/

/-- The characters that end a word. -/
def wordBreaks : List Char := [' ', '\t', '(', ')', '\'', '"', '\n', '\r']

theorem mem_wordBreaks {c : Char} : c ∈ wordBreaks ↔ isWordBreak c = true := by
  simp [wordBreaks, isWordBreak, or_assoc]

/-- From one column of a line to before another no character is a word break. -/
def Unbroken (cs : List Char) (start stop : Nat) : Prop :=
  ∀ i c, start ≤ i → i < stop → cs[i]? = some c → c ∉ wordBreaks

/-- From one column of a line to before another there is a word, or nothing: no character is a word
break, and on either side there is one, or an end of the line. -/
structure IsWord (cs : List Char) (start stop : Nat) : Prop where
  within : stop ≤ cs.length
  unbroken : Unbroken cs start stop
  before : ∀ i c, start = i + 1 → cs[i]? = some c → c ∈ wordBreaks
  behind : ∀ c, cs[stop]? = some c → c ∈ wordBreaks

namespace IsWord

/-- No word begins inside of another one. -/
theorem le_start (h : IsWord cs start stop) (h' : IsWord cs start' stop')
    (hle : start' ≤ stop) : start' ≤ start := by
  refine Nat.le_of_not_lt fun hlt => ?_
  obtain ⟨i, rfl⟩ : ∃ i, start' = i + 1 := Nat.exists_eq_succ_of_ne_zero (by omega)
  have hi : i < cs.length := Nat.lt_of_lt_of_le hle h.within
  have hc : cs[i]? = some cs[i] := List.getElem?_eq_getElem hi
  exact h.unbroken i _ (by omega) hle hc (h'.before i _ rfl hc)

/-- No word ends inside of another one. -/
theorem le_stop (h : IsWord cs start stop) (h' : IsWord cs start' stop')
    (hle : start' ≤ stop) : stop' ≤ stop := by
  refine Nat.le_of_not_lt fun hlt => ?_
  have hi : stop < cs.length := Nat.lt_of_lt_of_le hlt h'.within
  have hc : cs[stop]? = some cs[stop] := List.getElem?_eq_getElem hi
  exact h'.unbroken stop _ hle hlt hc (h.behind _ hc)

/-- Around a column there is one word. -/
theorem unique (h : IsWord cs start stop) (h' : IsWord cs start' stop')
    (hcolumn : start ≤ column ∧ column ≤ stop) (hcolumn' : start' ≤ column ∧ column ≤ stop') :
    start = start' ∧ stop = stop' := by
  have hle : start ≤ stop' := Nat.le_trans hcolumn.1 hcolumn'.2
  have hle' : start' ≤ stop := Nat.le_trans hcolumn'.1 hcolumn.2
  exact ⟨Nat.le_antisymm (h'.le_start h hle) (h.le_start h' hle'),
    Nat.le_antisymm (h'.le_stop h hle) (h.le_stop h' hle')⟩

/-- Between word breaks, or ends of a line, some other characters are a word. -/
theorem middle {front word back : List Char} (hword : ∀ c ∈ word, c ∉ wordBreaks)
    (hfront : ∀ c, front.getLast? = some c → c ∈ wordBreaks)
    (hback : ∀ c, back.head? = some c → c ∈ wordBreaks) :
    IsWord (front ++ (word ++ back)) front.length (front.length + word.length) where
  within := by
    rw [List.length_append, List.length_append]
    omega
  unbroken := fun i c hle hlt hc => by
    rw [List.getElem?_append_right hle, List.getElem?_append_left (by omega)] at hc
    exact hword c (List.mem_of_getElem? hc)
  before := fun i c hi hc => by
    rw [List.getElem?_append_left (by omega)] at hc
    refine hfront c ?_
    rw [List.getLast?_eq_getElem?, hi, Nat.add_sub_cancel, hc]
  behind := fun c hc => by
    rw [List.getElem?_append_right (Nat.le_add_right ..), Nat.add_sub_cancel_left,
      List.getElem?_append_right (Nat.le_refl _), Nat.sub_self, ← List.head?_eq_getElem?] at hc
    exact hback c hc

end IsWord

/-! ## Two walks -/

/-- Walks to the left until there is a word break in front, or nothing. A character that has to be
looked at and is not there leaves the walk without an answer. -/
def walkLeft? (cs : List Char) : Nat → Option Nat
  | 0 => some 0
  | column + 1 =>
    match cs[column]? with
    | none => none
    | some c => if isWordBreak c then some (column + 1) else walkLeft? cs column

/-- Walks to the right until it comes to a word break or to the end of the line. -/
def walkRight (cs : List Char) (column : Nat) : Nat :=
  match h : cs[column]? with
  | none => column
  | some c => if isWordBreak c then column else walkRight cs (column + 1)
termination_by cs.length - column
decreasing_by
  have hlt : column < cs.length := (List.getElem?_eq_some_iff.mp h).1
  omega

theorem walkLeft?_eq_none_iff : walkLeft? cs column = none ↔ cs.length < column := by
  fun_induction walkLeft? cs column with
  | case1 => simp
  | case2 column h =>
      have hle := List.getElem?_eq_none_iff.mp h
      exact iff_of_true rfl (Nat.lt_succ_of_le hle)
  | case3 column c h hbreak =>
      have hlt : column < cs.length := (List.getElem?_eq_some_iff.mp h).1
      exact iff_of_false nofun (by omega)
  | case4 column c h hbreak ih =>
      have hlt : column < cs.length := (List.getElem?_eq_some_iff.mp h).1
      rw [ih]
      omega

/-- The walk to the left comes over no word break and ends behind one, or where the line begins. -/
theorem walkLeft?_spec (h : walkLeft? cs column = some start) :
    start ≤ column ∧ Unbroken cs start column ∧
      ∀ i c, start = i + 1 → cs[i]? = some c → c ∈ wordBreaks := by
  fun_induction walkLeft? cs column with
  | case1 =>
      obtain rfl := Option.some.inj h
      exact ⟨Nat.le_refl 0, nofun, nofun⟩
  | case2 => cases h
  | case3 column c hc hbreak =>
      obtain rfl := Option.some.inj h
      refine ⟨Nat.le_refl _, fun i _ hle hlt => by omega, fun i d heq hd => ?_⟩
      obtain rfl := Nat.succ.inj heq
      obtain rfl := Option.some.inj (hc.symm.trans hd)
      exact mem_wordBreaks.mpr hbreak
  | case4 column c hc hbreak ih =>
      obtain ⟨hle, hunbroken, hbefore⟩ := ih h
      refine ⟨Nat.le_succ_of_le hle, fun i d hi hlt hd => ?_, hbefore⟩
      rcases Nat.lt_succ_iff_lt_or_eq.mp hlt with hlt | rfl
      · exact hunbroken i d hi hlt hd
      · obtain rfl := Option.some.inj (hc.symm.trans hd)
        exact mt mem_wordBreaks.mp hbreak

/-- The walk to the right comes over no word break and ends before one, or where the line ends. -/
theorem walkRight_spec (h : column ≤ cs.length) :
    column ≤ walkRight cs column ∧ walkRight cs column ≤ cs.length ∧
      Unbroken cs column (walkRight cs column) ∧
      ∀ c, cs[walkRight cs column]? = some c → c ∈ wordBreaks := by
  fun_induction walkRight cs column with
  | case1 column hnone =>
      refine ⟨Nat.le_refl _, h, fun i _ hle hlt => by omega, fun c hc => ?_⟩
      cases hnone.symm.trans hc
  | case2 column c hc hbreak =>
      refine ⟨Nat.le_refl _, h, fun i _ hle hlt => by omega, fun d hd => ?_⟩
      obtain rfl := Option.some.inj (hc.symm.trans hd)
      exact mem_wordBreaks.mpr hbreak
  | case3 column c hc hbreak ih =>
      obtain ⟨hle, hstop, hunbroken, hbehind⟩ := ih (List.getElem?_eq_some_iff.mp hc).1
      refine ⟨Nat.le_of_succ_le hle, hstop, fun i d hi hlt hd => ?_, hbehind⟩
      rcases Nat.eq_or_lt_of_le hi with rfl | hi
      · obtain rfl := Option.some.inj (hc.symm.trans hd)
        exact mt mem_wordBreaks.mp hbreak
      · exact hunbroken i d hi hlt hd

theorem isWord_of_walks (h : column ≤ cs.length) (hstart : walkLeft? cs column = some start) :
    IsWord cs start (walkRight cs column) := by
  obtain ⟨-, hleft, hbefore⟩ := walkLeft?_spec hstart
  obtain ⟨-, hwithin, hright, hbehind⟩ := walkRight_spec h
  refine ⟨hwithin, fun i c hi hlt hc => ?_, hbefore, hbehind⟩
  by_cases hcolumn : i < column
  · exact hleft i c hi hcolumn hc
  · exact hright i c (Nat.le_of_not_lt hcolumn) hlt hc

/-! ## What the walks find -/

theorem walkLeft?_eq (h : column ≤ cs.length) : walkLeft? cs column =
    some (column - ((cs.take column).reverse.takeWhile (!isWordBreak ·)).length) := by
  induction column with
  | zero => rfl
  | succ column ih =>
      have hc : cs[column]? = some cs[column] := List.getElem?_eq_getElem h
      rw [walkLeft?, hc, List.take_succ_eq_append_getElem h, List.reverse_append,
        List.reverse_singleton, List.singleton_append]
      dsimp only
      split
      · next hbreak => simp [hbreak]
      · next hbreak => simp [hbreak, ih (Nat.le_of_succ_le h)]

theorem walkRight_eq : walkRight cs column =
    column + ((cs.drop column).takeWhile (!isWordBreak ·)).length := by
  fun_induction walkRight cs column with
  | case1 column h =>
      rw [List.drop_eq_nil_of_le (List.getElem?_eq_none_iff.mp h)]
      rfl
  | case2 column c hc hbreak =>
      obtain ⟨hlt, rfl⟩ := List.getElem?_eq_some_iff.mp hc
      rw [List.drop_eq_getElem_cons hlt, List.takeWhile_cons_of_neg (by simp [hbreak])]
      rfl
  | case3 column c hc hbreak ih =>
      obtain ⟨hlt, rfl⟩ := List.getElem?_eq_some_iff.mp hc
      rw [List.drop_eq_getElem_cons hlt, List.takeWhile_cons_of_pos (by simp [hbreak]), ih,
        List.length_cons]
      omega

/-- What a line has from one column to before another, if it is anything, and the first column. -/
def hitBetween (cs : List Char) (start stop : Nat) : Hit :=
  ⟨if start = stop then none else some (cs.extract start stop), start⟩

theorem extract_middle (front middle back : List Char) :
    (front ++ (middle ++ back)).extract front.length (front.length + middle.length) = middle := by
  rw [List.extract_eq_take_drop, List.drop_left, Nat.add_sub_cancel_left, List.take_left]

theorem wordInLine_eq (h : column ≤ cs.length) : some (wordInLine cs column) =
    (walkLeft? cs column).map (hitBetween cs · (walkRight cs column)) := by
  obtain ⟨front, hfront⟩ :=
    List.takeWhile_prefix (l := (cs.take column).reverse) (!isWordBreak ·)
  obtain ⟨back, hback⟩ := List.takeWhile_prefix (l := cs.drop column) (!isWordBreak ·)
  rw [walkLeft?_eq h, walkRight_eq, Option.map_some, hitBetween, wordInLine]
  generalize (cs.take column).reverse.takeWhile (!isWordBreak ·) = before at *
  generalize (cs.drop column).takeWhile (!isWordBreak ·) = after at *
  have hbefore : cs.take column = front.reverse ++ before.reverse := by
    rw [← List.reverse_append, hfront, List.reverse_reverse]
  have hline : cs = front.reverse ++ ((before.reverse ++ after) ++ back) := by
    rw [List.append_assoc, hback, ← List.append_assoc, ← hbefore, List.take_append_drop]
  have hcolumn : column = front.length + before.length := by
    have hlength := congrArg List.length hbefore
    rw [List.length_take_of_le h] at hlength
    simpa using hlength
  have hstart : column - before.length = front.length := by omega
  have hstop : column + after.length = front.length + (before.length + after.length) := by omega
  have hword := extract_middle front.reverse (before.reverse ++ after) back
  rw [← hline] at hword
  simp only [List.length_append, List.length_reverse] at hword ⊢
  have hempty : (before.reverse ++ after).isEmpty = true ↔
      front.length = front.length + (before.length + after.length) := by
    simp
  rw [hstart, hstop, hword]
  simp only [hempty]

/-- The word around a place is what two walks from there find. -/
theorem wordAt_eq_walks (buffer : List Char) (number character : Nat) :
    wordAt buffer number character =
      match (splitLines buffer)[number]? with
      | none => some ⟨none, character⟩
      | some cs =>
        (walkLeft? cs character).map (hitBetween cs · (walkRight cs character)) := by
  rw [wordAt]
  cases (splitLines buffer)[number]? with
  | none => rfl
  | some cs =>
      dsimp only
      split
      · next hlt => rw [walkLeft?_eq_none_iff.mpr hlt, Option.map_none]
      · next hle => exact wordInLine_eq (Nat.le_of_not_lt hle)

theorem wordAt_eq_none_iff {buffer : List Char} {number character : Nat} :
    wordAt buffer number character = none ↔
      ∃ cs, (splitLines buffer)[number]? = some cs ∧ cs.length < character := by
  rw [wordAt_eq_walks]
  cases (splitLines buffer)[number]? with
  | none => simp
  | some cs => simp [walkLeft?_eq_none_iff]

theorem exists_isWord {buffer : List Char} {number character : Nat}
    (hline : (splitLines buffer)[number]? = some cs) (h : character ≤ cs.length) :
    ∃ start stop, IsWord cs start stop ∧ start ≤ character ∧ character ≤ stop ∧
      wordAt buffer number character = some (hitBetween cs start stop) := by
  rw [wordAt_eq_walks, hline]
  dsimp only
  cases hstart : walkLeft? cs character with
  | none => exact absurd (walkLeft?_eq_none_iff.mp hstart) (Nat.not_lt_of_le h)
  | some start =>
      exact ⟨start, walkRight cs character, isWord_of_walks h hstart, (walkLeft?_spec hstart).1,
        (walkRight_spec h).1, rfl⟩

/-- The word around a column is the one that is found there. -/
theorem wordAt_of_isWord {buffer : List Char} {number : Nat}
    (hline : (splitLines buffer)[number]? = some cs) (hword : IsWord cs start stop)
    (hcolumn : start ≤ column ∧ column ≤ stop) :
    wordAt buffer number column = some (hitBetween cs start stop) := by
  have hle : column ≤ cs.length := Nat.le_trans hcolumn.2 hword.within
  obtain ⟨start', stop', hfound, hstart, hstop, heq⟩ := exists_isWord hline hle
  obtain ⟨rfl, rfl⟩ := hword.unique hfound hcolumn ⟨hstart, hstop⟩
  exact heq

theorem wordAt_middle {buffer front word back : List Char} {number : Nat}
    (hline : (splitLines buffer)[number]? = some (front ++ (word ++ back))) (hne : word ≠ [])
    (hword : IsWord (front ++ (word ++ back)) front.length (front.length + word.length)) :
    wordAt buffer number front.length = some ⟨some word, front.length⟩ := by
  have hlt : 0 < word.length := List.length_pos_iff.mpr hne
  rw [wordAt_of_isWord hline hword ⟨Nat.le_refl _, Nat.le_add_right ..⟩, hitBetween,
    extract_middle, if_neg (by omega)]

/-- **The word under the cursor.** There is no answer exactly for a character beyond the end of a
line that is there, with its break. For any other character of such a line the answer is the word
around it, which begins at or before the character and ends at or behind it, and the column where it
begins; there is no word exactly if it ends where it begins. For a line beyond the last one the
answer is no word, and the character itself. -/
theorem word_around (buffer : List Char) (number character : Nat) :
    (wordAt buffer number character = none ↔
      ∃ line, (splitLines buffer)[number]? = some line ∧ line.length < character) ∧
    (∀ line, (splitLines buffer)[number]? = some line → character ≤ line.length →
      ∃ start stop, IsWord line start stop ∧ start ≤ character ∧ character ≤ stop ∧
        wordAt buffer number character =
          some ⟨if start = stop then none else some (line.extract start stop), start⟩) ∧
    ((splitLines buffer)[number]? = none →
      wordAt buffer number character = some ⟨none, character⟩) := by
  refine ⟨wordAt_eq_none_iff, fun line hline h => exists_isWord hline h, fun hnone => ?_⟩
  rw [wordAt_eq_walks, hnone]

/-- The word `car` in a line that ends with two characters, the end of that line, and a line beyond
the last one. -/
theorem word_around_middle :
    let buffer := "(car x)\r\n".toList
    (splitLines buffer)[0]? = some buffer ∧ 3 ≤ buffer.length ∧
      IsWord buffer 1 4 ∧ wordAt buffer 0 3 = some ⟨some "car".toList, 1⟩ ∧
      wordAt buffer 0 10 = none ∧
      (splitLines buffer)[1]? = none ∧ wordAt buffer 1 4 = some ⟨none, 4⟩ := by
  intro buffer
  have hline : (splitLines buffer)[0]? = some buffer := by decide
  have hle : 3 ≤ buffer.length := by decide
  have hlt : buffer.length < 10 := by decide
  have hbeyond : (splitLines buffer)[1]? = none := by decide
  have hcar : IsWord buffer 1 4 :=
    @IsWord.middle ['('] "car".toList " x)\r\n".toList (by simp [wordBreaks])
      (by simp [wordBreaks]) (by simp [wordBreaks])
  obtain ⟨start, stop, hword, hstart, hstop, hfound⟩ :=
    (word_around buffer 0 3).2.1 buffer hline hle
  obtain ⟨rfl, rfl⟩ := hcar.unique hword ⟨by decide, by decide⟩ ⟨hstart, hstop⟩
  exact ⟨hline, hle, hcar, hfound, (word_around buffer 0 10).1.mpr ⟨buffer, hline, hlt⟩, hbeyond,
    (word_around buffer 1 4).2.2 hbeyond⟩

end TableLisp.Cursor

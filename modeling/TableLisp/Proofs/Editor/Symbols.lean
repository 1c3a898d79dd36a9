import TableLisp.Editor.Server
import TableLisp.Proofs.Editor.Cursor
import TableLisp.Proofs.Editor.Definitions
import TableLisp.Proofs.Text.Lines

/-!
# The places of the defined names

A buffer is cut where no atom goes on (`Piece.apart_cut`), so a word that can be a name is a run of
atom characters with no other one in front of it or behind it (`Word.runsIn_of_mem`). An entry of
the index has its name and its place from such a word (`Index.namedBy_of_mem_scan`), and in the line
of the place the name stands at the column (`Index.name_in_line`). This needs no buffer that could
be read.

A word under the cursor does not end at the characters that end an atom: there are fewer of them.
Where a buffer has only those in common the word at the place of a name is the name
(`Index.wordAt_name`).
-/

namespace TableLisp

open Text

/-! ## Runs of atom characters -/

/-- Some atom characters between others of a text, which do not continue them on either side. -/
structure IsRun (before run after : List Char) : Prop where
  nonempty : run ≠ []
  atom : ∀ c ∈ run, isAtomChar c = true
  before : ∀ c, before.getLast? = some c → isAtomChar c = false
  after : EndsAtom after

/-- Between two parts of a text no atom goes on. -/
def Apart (before after : List Char) : Prop :=
  (∀ c, before.getLast? = some c → isAtomChar c = false) ∨ EndsAtom after

namespace Piece

/-- What is cut off a text does not go on behind the cut. -/
theorem apart_cut (before : List Char) (c : Char) (rest : List Char) :
    Apart (before ++ (cut c rest).text) (cut c rest).rest := by
  have hlast {text : List Char} {mark : Char} (htext : text.getLast? = some mark)
      (hmark : isAtomChar mark = false) :
      ∀ d, (before ++ text).getLast? = some d → isAtomChar d = false := by
    intro d hd
    rw [List.getLast?_append, htext] at hd
    exact Option.some.inj hd ▸ hmark
  fun_cases cut c rest with
  | case1 hblank => exact .inl (hlast rfl (isAtomChar_of_isBlank hblank))
  | case2 hblank hsemi =>
      refine .inr fun d hd => ?_
      obtain ⟨later, hdrop⟩ := List.head?_eq_some_iff.mp hd
      rw [eq_of_dropWhile_ne hdrop]
      rfl
  | case3 hblank hsemi hq => exact .inl (hlast rfl (hq ▸ rfl))
  | case4 hblank hsemi hq hl => exact .inl (hlast rfl (hl ▸ rfl))
  | case5 hblank hsemi hq hl hr => exact .inl (hlast rfl (hr ▸ rfl))
  | case6 hblank hsemi hq hl hr hs => exact .inl (hlast rfl (hs ▸ rfl))
  | case7 hblank hsemi hq hl hr hs close rest' hdrop =>
      refine .inl (hlast (List.getLast?_concat ..) ?_)
      rw [eq_of_dropWhile_ne hdrop]
      rfl
  | case8 => exact .inr (endsAtom_dropWhile rest)
  | case9 hblank hsemi hq hl hr hs hc =>
      exact absurd (isAtomChar_of_other hblank hsemi hq hl hr hs) hc

theorem eq_of_word? {piece : Piece} {offset : Nat} {word : Word}
    (h : piece.word? offset = some word) : word = ⟨piece.text, offset⟩ := by
  revert h
  unfold word?
  split <;> rintro ⟨⟩ <;> rfl

/-- A word that can be a name is a run of atom characters. -/
theorem isRun_of_isName {before : List Char} {c : Char} {rest : List Char} {offset : Nat}
    {word : Word} (h : Apart before (c :: rest)) (hword : (cut c rest).word? offset = some word)
    (hname : Definition.isName word = true) :
    IsRun before (cut c rest).text (cut c rest).rest := by
  revert hword
  fun_cases cut c rest with
  | case8 hblank hsemi hq hl hr hs hc =>
      intro _
      refine ⟨List.cons_ne_nil _ _, forall_isAtomChar hc rest, ?_, endsAtom_dropWhile rest⟩
      exact h.resolve_right fun hends => by simp [hends c rfl] at hc
  | case1 | case2 | case6 | case9 => rintro ⟨⟩
  | case3 hblank hsemi hq => rintro ⟨⟩; simp [hq, Definition.isName] at hname
  | case4 hblank hsemi hq hl => rintro ⟨⟩; simp [hl, Definition.isName] at hname
  | case5 hblank hsemi hq hl hr => rintro ⟨⟩; simp [hr, Definition.isName] at hname
  | case7 hblank hsemi hq hl hr hs => rintro ⟨⟩; simp [hs, Definition.isName] at hname

end Piece

namespace Word

/-- A word is found as a run of atom characters of a text, at its offset. -/
def RunsIn (text : List Char) (word : Word) : Prop :=
  ∃ before after, text = before ++ (word.text ++ after) ∧ word.offset = before.length ∧
    IsRun before word.text after

/-- Every word that is found and can be a name runs in the text. `before` is the text that is done
with, of which no atom goes on. -/
theorem runsIn_of_mem_collect {word : Word} (hname : Definition.isName word = true) :
    ∀ {before : List Char} {done : List Word} {cs : List Char}, Apart before cs →
      word ∈ collect before.length done cs → word ∈ done ∨ RunsIn (before ++ cs) word
  | before, done, [], _, h => .inl (by simpa [collect] using h)
  | before, done, c :: rest, hapart, h => by
      rw [collect_cons, ← List.length_append] at h
      have htext : before ++ ((Piece.cut c rest).text ++ (Piece.cut c rest).rest) =
          before ++ c :: rest := by
        rw [Piece.cut_append]
      rcases runsIn_of_mem_collect hname (Piece.apart_cut before c rest) h with hmem | hruns
      · rcases List.mem_append.mp hmem with hnew | hdone
        · have hword := Option.mem_toList.mp hnew
          have hrun := Piece.isRun_of_isName hapart hword hname
          obtain rfl := Piece.eq_of_word? hword
          exact .inr ⟨before, _, htext.symm, rfl, hrun⟩
        · exact .inl hdone
      · rw [List.append_assoc, htext] at hruns
        exact .inr hruns
termination_by _ _ cs => cs.length
decreasing_by exact Piece.length_cut_rest c rest

theorem runsIn_of_mem {buffer : List Char} {word : Word} (h : word ∈ ofBuffer buffer)
    (hname : Definition.isName word = true) : RunsIn buffer word := by
  have hapart : Apart [] buffer := .inl (by simp)
  exact (runsIn_of_mem_collect hname hapart h).resolve_left List.not_mem_nil

end Word

/-! ## Entries of the index -/

namespace Definition

/-- A definition has its name and its place from a word that can be a name. -/
structure NamedBy (buffer : List Char) (word : Word) (d : Definition) : Prop where
  isName : isName word = true
  name : d.name.toList = word.text
  position : d.position = .inBuffer buffer word.offset

theorem namedBy_of_ofWords? {buffer : List Char} {words : List Word} {d : Definition}
    (h : ofWords? buffer words = some d) : ∃ word ∈ words, d.NamedBy buffer word := by
  unfold ofWords? at h
  split at h
  · next keyword word later =>
      split at h
      · next hdefines =>
          cases h
          rw [Bool.and_eq_true] at hdefines
          exact ⟨word, by simp, hdefines.2, String.toList_ofList, rfl⟩
      · cases h
  · cases h

end Definition

namespace Index

theorem namedBy_of_mem_scan {buffer : List Char} {d : Definition} :
    ∀ {words : List Word} {balance : Int} {definitions : List Definition},
      d ∈ (scan buffer balance definitions words).2 →
        d ∈ definitions ∨ ∃ word ∈ words, d.NamedBy buffer word
  | [], balance, definitions, h => .inl h
  | first :: words, balance, definitions, h => by
      have hlater {definitions : List Definition} {balance : Int}
          (h : d ∈ (scan buffer balance definitions words).2) :
          d ∈ definitions ∨ ∃ word ∈ first :: words, d.NamedBy buffer word :=
        (namedBy_of_mem_scan h).imp_right fun ⟨word, hmem, hnamed⟩ =>
          ⟨word, List.mem_cons_of_mem _ hmem, hnamed⟩
      rw [scan] at h
      split at h
      · rcases hlater h with hmem | hnamed
        · cases hfound : (if balance + 1 = 1 then Definition.ofWords? buffer words else none) with
          | none => exact .inl (by rwa [hfound] at hmem)
          | some e =>
              rw [hfound] at hmem
              rcases Definition.of_mem_put hmem with rfl | hmem
              · have hwords := (Option.ite_none_right_eq_some.mp hfound).2
                obtain ⟨word, hmem, hnamed⟩ := Definition.namedBy_of_ofWords? hwords
                exact .inr ⟨word, List.mem_cons_of_mem _ hmem, hnamed⟩
              · exact .inl hmem
        · exact .inr hnamed
      · split at h <;> exact hlater h

end Index

/-! ## The line of a name -/

/-- A run of atom characters is in one line. -/
theorem IsRun.in_line {before run after : List Char} (h : IsRun before run after) :
    IsRun (lastLine before) run (after.takeWhile (· != '\n')) ∧
      (run ++ after).takeWhile (· != '\n') = run ++ after.takeWhile (· != '\n') := by
  refine ⟨⟨h.nonempty, h.atom, fun c hc => h.before c (getLast?_of_lastLine hc), fun c hc => ?_⟩,
    List.takeWhile_append_of_pos fun c hc => ?_⟩
  · rw [List.head?_takeWhile, Option.filter_eq_some_iff] at hc
    exact h.after c hc.1
  · rw [bne_iff_ne]
    rintro rfl
    cases h.atom _ hc

namespace Index

variable {buffer : List Char} {d : Definition}

/-- The name of an entry stands in the line of its place, from the column on. -/
theorem name_in_line (h : d ∈ (ofBuffer buffer).definitions) :
    ∃ before after,
      (buffer.splitOn '\n')[d.position.line]? = some (before ++ (d.name.toList ++ after)) ∧
        d.position.column = before.length ∧ IsRun before d.name.toList after := by
  obtain ⟨word, hmem, hnamed⟩ := (namedBy_of_mem_scan h).resolve_left List.not_mem_nil
  obtain ⟨before, after, hbuffer, hoffset, hrun⟩ := Word.runsIn_of_mem hmem hnamed.isName
  have hposition : d.position = ⟨before.count '\n', lastLineLength before⟩ := by
    rw [hnamed.position, Position.inBuffer_eq_ofOffset, hoffset, hbuffer, position_behind]
  obtain ⟨hinside, hfront⟩ := hrun.in_line
  rw [hposition, hbuffer, hnamed.name]
  refine ⟨lastLine before, after.takeWhile (· != '\n'), ?_, (length_lastLine before).symm, hinside⟩
  rw [getElem?_splitOn, hfront]

end Index

/-! ## The name under the cursor -/

theorem Cursor.isAtomChar_of_mem_wordBreaks {c : Char} (h : c ∈ wordBreaks) :
    isAtomChar c = false := by
  have hall : wordBreaks.all (!isAtomChar ·) = true := by decide
  simpa using List.all_eq_true.mp hall c h

/-- A line feed behind a line leaves its runs as they are. -/
theorem IsRun.append_feed {before run after feed : List Char} (h : IsRun before run after)
    (hfeed : feed = [] ∨ feed = ['\n']) : IsRun before run (after ++ feed) := by
  refine { h with after := ?_ }
  cases after with
  | nil => rcases hfeed with rfl | rfl <;> rintro c ⟨⟩; rfl
  | cons c after => exact h.after

section

variable {text : List Char} (hblank : ∀ c ∈ text, isBlank c = true → c ∈ [' ', '\t', '\n'])
  (hcomment : ';' ∉ text)

include hblank

/-- Where there are few blanks, an editor's lines end at line feeds only. -/
theorem eq_feed_of_isLineBreak : ∀ c ∈ text, isLineBreak c = true → c = '\n' := by
  have hfeed : ∀ c ∈ [' ', '\t', '\n'], isLineBreak c = true → c = '\n' := by
    simp [isLineBreak]
  exact fun c hc hbreak => hfeed c (hblank c hc (isBlank_of_isLineBreak hbreak)) hbreak

include hcomment

/-- Where there are few blanks and no comments, what ends an atom ends a word. -/
theorem Cursor.mem_wordBreaks_of_not_isAtomChar {c : Char} (hmem : c ∈ text)
    (hc : isAtomChar c = false) : c ∈ wordBreaks := by
  have hspaces : ∀ c ∈ [' ', '\t', '\n'], c ∈ wordBreaks := by simp [wordBreaks]
  have hmarks : ∀ c ∈ ['(', ')', '\'', '"', ';'], c ≠ ';' → c ∈ wordBreaks := by
    simp [wordBreaks]
  rcases breaks_of_not_isAtomChar hc with hspace | hmark
  · exact hspaces c (hblank c hmem hspace)
  · exact hmarks c hmark fun heq => hcomment (heq ▸ hmem)

theorem IsRun.isWord {before run after : List Char} (h : IsRun before run after)
    (hmem : ∀ c ∈ before ++ (run ++ after), c ∈ text) :
    Cursor.IsWord (before ++ (run ++ after)) before.length (before.length + run.length) := by
  refine .middle (fun c hc hbreak => ?_) (fun c hc => ?_) fun c hc => ?_
  · have hnot := Cursor.isAtomChar_of_mem_wordBreaks hbreak
    rw [h.atom c hc] at hnot
    cases hnot
  · refine Cursor.mem_wordBreaks_of_not_isAtomChar hblank hcomment (hmem c ?_) (h.before c hc)
    exact List.mem_append_left _ (List.mem_of_getLast? hc)
  · refine Cursor.mem_wordBreaks_of_not_isAtomChar hblank hcomment (hmem c ?_) (h.after c hc)
    exact List.mem_append_right _ (List.mem_append_right _ (List.mem_of_head? hc))

theorem Index.wordAt_name {d : Definition} (h : d ∈ (ofBuffer text).definitions) :
    Cursor.wordAt text d.position.line d.position.column =
      some ⟨some d.name.toList, d.position.column⟩ := by
  obtain ⟨before, after, hline, hcolumn, hrun⟩ := name_in_line h
  have hne : before ++ (d.name.toList ++ after) ≠ [] := by simp [hrun.nonempty]
  obtain ⟨feed, hfeed, hfound⟩ := getElem?_splitLines (eq_feed_of_isLineBreak hblank) hline hne
  rw [List.append_assoc, List.append_assoc] at hfound
  have hmem : ∀ c ∈ before ++ (d.name.toList ++ (after ++ feed)), c ∈ text := by
    intro c hc
    rw [← flatten_splitLines text]
    exact List.mem_flatten_of_mem (List.mem_of_getElem? hfound) hc
  rw [hcolumn]
  exact Cursor.wordAt_middle hfound hrun.nonempty
    ((hrun.append_feed hfeed).isWord hblank hcomment hmem)

end

namespace Document

/-- A hover says something about every name of the index. -/
theorem exists_describe {document : Document} {d : Definition}
    (h : d ∈ document.index.definitions) :
    ∃ description, document.describe? d.name = some description := by
  have hfind : (document.index.find? d.name).isSome = true :=
    List.find?_isSome.mpr ⟨d, h, BEq.rfl⟩
  obtain ⟨found, hfound⟩ := Option.isSome_iff_exists.mp hfind
  rw [describe?, hfound, Option.map_some]
  split
  · exact ⟨_, rfl⟩
  · split <;> exact ⟨_, rfl⟩

/-- **Names in their places.** Whatever a text is, the name of every entry of its index stands in
the line of the entry's place, of the lines that only line feeds end, and takes up the columns of
the entry's span. Where spaces, tabs and line feeds are the only blanks and there is no semicolon,
the word under the cursor at the place is the name, which begins there, and a hover tells about
it. -/
theorem names_in_place (text : String) :
    let document := ofText text
    let lines := text.toList.splitOn '\n'
    ∀ d ∈ document.index.definitions,
      (∃ before after, lines[d.position.line]? = some (before ++ (d.name.toList ++ after)) ∧
        d.position.column = before.length ∧
        d.span = ⟨d.position.line, before.length, before.length + d.name.length⟩) ∧
      ((∀ c ∈ text.toList, isBlank c = true → c ∈ [' ', '\t', '\n']) → ';' ∉ text.toList →
        Cursor.wordAt text.toList d.position.line d.position.column =
            some ⟨some d.name.toList, d.position.column⟩ ∧
          ∃ description, document.describe? d.name = some description ∧
            document.hover d.position.line d.position.column = some (some description)) := by
  intro document lines d hd
  obtain ⟨before, after, hline, hcolumn, -⟩ := Index.name_in_line hd
  refine ⟨⟨before, after, hline, hcolumn, ?_⟩, fun hblank hcomment => ?_⟩
  · rw [Definition.span, Span.ofLength, hcolumn]
  · have hword := Index.wordAt_name hblank hcomment hd
    obtain ⟨description, hdescribe⟩ := exists_describe hd
    have hbuffer : document.buffer = text.toList := rfl
    refine ⟨hword, description, hdescribe, ?_⟩
    rw [hover, hbuffer, hword, Option.map_some, Option.bind_some, String.ofList_toList, hdescribe]

/-- A name on the fourth line of a text with a string and parentheses that are left open. -/
theorem names_in_open_text :
    let text := "(define f (lambda (x) x))\n(car '()\n)(define\n\tg \"open ("
    let document := ofText text
    let d : Definition := ⟨"g", .variable, ⟨3, 1⟩⟩
    d ∈ document.index.definitions ∧
      (∀ c ∈ text.toList, isBlank c = true → c ∈ [' ', '\t', '\n']) ∧ ';' ∉ text.toList ∧
      (∃ before after, (text.toList.splitOn '\n')[3]? = some (before ++ ("g".toList ++ after)) ∧
        1 = before.length ∧ d.span = ⟨3, before.length, before.length + d.name.length⟩) ∧
      Cursor.wordAt text.toList 3 1 = some ⟨some "g".toList, 1⟩ ∧
      ∃ description, document.describe? "g" = some description ∧
        document.hover 3 1 = some (some description) := by
  intro text document d
  have hd : d ∈ document.index.definitions := by decide +kernel
  have hblank : ∀ c ∈ text.toList, isBlank c = true → c ∈ [' ', '\t', '\n'] := by
    simp [text, isBlank]
  have hcomment : ';' ∉ text.toList := by decide
  obtain ⟨hline, hcursor⟩ := names_in_place text d hd
  exact ⟨hd, hblank, hcomment, hline, hcursor hblank hcomment⟩

end Document

end TableLisp

import TableLisp.Editor.Server
import TableLisp.Proofs.Editor.Written
import TableLisp.Proofs.Text.Lines

/-!
# Diagnostics and the reader

What a server publishes on a text is the error of the reader, if there is one, and warnings about
parentheses and strings. The parentheses of a text that is read match, so they are never warned of.
Strings are looked for line by line, and a line ends at more characters than a comment does: behind
a carriage return, say, the rest of a comment is scanned as if it were none.

`Index.openBehind` is that scan, one character at a time. It passes over every piece of a source but
such a comment (`Index.openBehind_piece`), and not even that one can mislead it unless it holds a
double quote behind the line break (`HidesQuotes`). So a text that is read without such comments is
published without diagnostics, and with them perhaps not (`quote_behind_return`).
-/

namespace TableLisp

open Text

/-! ## Open strings -/

namespace Index

/-- Whether a string is open behind some text that is scanned line by line. -/
def openBehind (isOpen : Bool) (text : List Char) : Bool :=
  (splitLines text).foldl openAfterLine isOpen

/-- What a character does at the front of every line it does at the front of a text. -/
theorem openBehind_cons {c : Char} {isOpen after : Bool}
    (h : ∀ line, openAfterLine isOpen (c :: line) = openAfterLine after line)
    (rest : List Char) : openBehind isOpen (c :: rest) = openBehind after rest := by
  unfold openBehind
  rcases splitLines_cons c rest with hsplit | ⟨first, later, hrest, hsplit⟩
  · rw [hsplit, List.foldl_cons, h []]
    rfl
  · rw [hsplit, hrest, List.foldl_cons, List.foldl_cons, h first]

theorem openBehind_other {c : Char} {isOpen : Bool} (hmark : c ≠ '"')
    (hcomment : c = ';' → isOpen = true) (rest : List Char) :
    openBehind isOpen (c :: rest) = openBehind isOpen rest := by
  refine openBehind_cons (fun line => ?_) rest
  by_cases hc : c = ';'
  · rw [hc, openAfterLine, if_pos (hcomment hc)]
  · rw [openAfterLine]
    · exact hmark
    · exact hc

/-- Where no comment begins, the scan counts double quotes. -/
theorem Quotes.openBehind_append {isOpen after : Bool} {cs : List Char}
    (h : Quotes isOpen cs after) (rest : List Char) :
    openBehind isOpen (cs ++ rest) = openBehind after rest := by
  induction h with
  | nil => rfl
  | mark _ ih => exact (openBehind_cons (fun _ => rfl) _).trans ih
  | other hmark hcomment _ ih => exact (openBehind_other hmark hcomment _).trans ih

/-- A comment is left at the end of its line. -/
theorem openBehind_comment (rest : List Char) :
    openBehind false (';' :: rest) = openBehind false (rest.dropWhile (!isLineBreak ·)) := by
  have hline : openBehind false (';' :: rest) =
      (splitLines rest).tail.foldl openAfterLine false := by
    rw [openBehind, splitLines_of_inside rfl]
    cases splitLines rest <;> rfl
  rw [hline]
  clear hline
  induction rest with
  | nil => rfl
  | cons c rest ih =>
      cases hbreak : isLineBreak c with
      | true =>
          have hmark : c ≠ '"' ∧ c ≠ ';' := by
            constructor <;> rintro rfl <;> cases hbreak
          have hline {line : List Char} (h : ∀ d ∈ line, d ≠ '"' ∧ d ≠ ';') :
              openAfterLine false line = false := (Quotes.plain h).openAfterLine_eq
          rw [List.dropWhile_cons_of_neg (by simp [hbreak]), openBehind]
          rcases splitLines_of_break hbreak rest with hsplit | ⟨later, -, hsplit⟩
          · rw [hsplit, List.foldl_cons, hline (by simpa using hmark)]
            rfl
          · rw [hsplit, List.foldl_cons, hline (by simpa using hmark)]
            rfl
      | false =>
          rw [List.dropWhile_cons_of_pos (by simp [hbreak]), ← ih, splitLines_of_inside hbreak]
          cases splitLines rest <;> rfl

end Index

/-! ## Comments -/

/-- In a comment no double quote stands behind a line break. -/
def HidesQuotes (comment : List Char) : Prop :=
  '"' ∉ comment.dropWhile (!isLineBreak ·)

instance : DecidablePred HidesQuotes :=
  fun comment => inferInstanceAs (Decidable ('"' ∉ comment.dropWhile (!isLineBreak ·)))

/-- The comments of a source. -/
def comments : List Char → List (List Char)
  | [] => []
  | c :: rest =>
    let piece := Piece.cut c rest
    if piece.shape = .comment then piece.text :: comments piece.rest else comments piece.rest
termination_by cs => cs.length
decreasing_by all_goals exact Piece.length_cut_rest c rest

theorem comments_cons (c : Char) (rest : List Char) :
    comments (c :: rest) =
      if (Piece.cut c rest).shape = .comment then
        (Piece.cut c rest).text :: comments (Piece.cut c rest).rest
      else comments (Piece.cut c rest).rest :=
  comments.eq_def (c :: rest)

theorem forall_comments {P : List Char → Prop} {c : Char} {rest : List Char}
    (h : ∀ comment ∈ comments (c :: rest), P comment) :
    ((Piece.cut c rest).shape = .comment → P (Piece.cut c rest).text) ∧
      ∀ comment ∈ comments (Piece.cut c rest).rest, P comment := by
  rw [comments_cons] at h
  by_cases hshape : (Piece.cut c rest).shape = .comment
  · rw [if_pos hshape] at h
    exact ⟨fun _ => h _ List.mem_cons_self, fun comment hmem => h _ (List.mem_cons_of_mem _ hmem)⟩
  · rw [if_neg hshape] at h
    exact ⟨fun hcomment => absurd hcomment hshape, h⟩

namespace Index

theorem dropWhile_before_break {rest : List Char}
    (hrest : ∀ c, rest.head? = some c → isLineBreak c = true) (cs : List Char) :
    (cs ++ rest).dropWhile (!isLineBreak ·) = cs.dropWhile (!isLineBreak ·) ++ rest := by
  cases rest with
  | nil => simp
  | cons c rest => exact dropWhile_stop (by simp [hrest c rfl]) cs rest

/-- Up to a line break the scan passes over text without a double quote, whatever comments it sees
there. -/
theorem openBehind_hidden : ∀ {hidden : List Char}, '"' ∉ hidden → ∀ {rest : List Char},
    (∀ c, rest.head? = some c → isLineBreak c = true) →
      openBehind false (hidden ++ rest) = openBehind false rest
  | [], _, _, _ => rfl
  | c :: hidden, h, rest, hrest => by
      have hhidden : '"' ∉ hidden := List.not_mem_of_not_mem_cons h
      by_cases hcomment : c = ';'
      · have hless := List.dropWhile_sublist (l := hidden) (!isLineBreak ·)
        have : (hidden.dropWhile (!isLineBreak ·)).length ≤ hidden.length := hless.length_le
        rw [hcomment, List.cons_append, openBehind_comment, dropWhile_before_break hrest,
          openBehind_hidden (fun hmem => hhidden (hless.subset hmem)) hrest]
      · have hmark : c ≠ '"' := Ne.symm (List.ne_of_not_mem_cons h)
        rw [List.cons_append, openBehind_other hmark (absurd · hcomment),
          openBehind_hidden hhidden hrest]
termination_by hidden => hidden.length

/-- The text of a piece closes its strings, if it is no comment. -/
theorem quotes_piece {c : Char} {rest : List Char}
    (hunclosed : (Piece.cut c rest).shape ≠ .unclosed)
    (hcomment : (Piece.cut c rest).shape ≠ .comment) :
    Quotes false (Piece.cut c rest).text false := by
  revert hunclosed hcomment
  fun_cases Piece.cut c rest with
  | case1 hblank =>
      intro _ _
      refine .plain (List.forall_mem_singleton.mpr ⟨?_, ?_⟩) <;> rintro rfl <;> cases hblank
  | case2 => exact fun _ h => absurd rfl h
  | case3 hblank hsemi hq => exact fun _ _ => .plain (by simp [hq])
  | case4 hblank hsemi hq hl => exact fun _ _ => .plain (by simp [hl])
  | case5 hblank hsemi hq hl hr => exact fun _ _ => .plain (by simp [hr])
  | case6 => exact fun h _ => absurd rfl h
  | case7 hblank hsemi hq hl hr hs close rest' hdrop =>
      intro _ _
      have hclose : close = '"' := eq_of_dropWhile_ne hdrop
      have hcontent : '"' ∉ rest.takeWhile (· != '"') := not_mem_takeWhile_ne '"' rest
      rw [hs, hclose]
      exact .mark ((Quotes.inside hcontent).append (.mark .nil))
  | case8 hblank hsemi hq hl hr hs hc =>
      intro _ _
      exact .atom (forall_isAtomChar hc rest)
  | case9 hblank hsemi hq hl hr hs hc =>
      exact absurd (Piece.isAtomChar_of_other hblank hsemi hq hl hr hs) hc

theorem openBehind_comment_piece {c : Char} {rest : List Char}
    (hshape : (Piece.cut c rest).shape = .comment) (h : HidesQuotes (Piece.cut c rest).text) :
    openBehind false (c :: rest) = openBehind false (Piece.cut c rest).rest := by
  revert hshape h
  fun_cases Piece.cut c rest with
  | case2 hblank hsemi =>
      intro _ hhidden
      rw [hsemi] at hhidden ⊢
      have hline : ∀ d, (rest.dropWhile (· != '\n')).head? = some d → isLineBreak d = true := by
        intro d hd
        obtain ⟨later, hdrop⟩ := List.head?_eq_some_iff.mp hd
        rw [eq_of_dropWhile_ne hdrop]
        rfl
      have hsplit := dropWhile_before_break hline (rest.takeWhile (· != '\n'))
      rw [List.takeWhile_append_dropWhile] at hsplit
      rw [openBehind_comment, hsplit]
      exact openBehind_hidden hhidden hline
  | _ => exact fun hshape => by cases hshape

/-- The scan passes over every piece of a source that is lexed. -/
theorem openBehind_piece {c : Char} {rest : List Char}
    (hunclosed : (Piece.cut c rest).shape ≠ .unclosed)
    (hcomment : (Piece.cut c rest).shape = .comment → HidesQuotes (Piece.cut c rest).text) :
    openBehind false (c :: rest) = openBehind false (Piece.cut c rest).rest := by
  by_cases hshape : (Piece.cut c rest).shape = .comment
  · exact openBehind_comment_piece hshape (hcomment hshape)
  · rw [← Piece.cut_append c rest]
    exact (quotes_piece hunclosed hshape).openBehind_append _

theorem openBehind_source {source : List Char} {offset : Nat} {done : List Token}
    {cs : List Char} (hlexed : (lexFrom source offset done cs).failure = none)
    (hcomments : ∀ comment ∈ comments cs, HidesQuotes comment) : openBehind false cs = false := by
  fun_induction lexFrom source offset done cs with
  | case1 => rfl
  | case2 => cases hlexed
  | case3 offset done c rest piece next hkind ih =>
      obtain ⟨hcomment, hlater⟩ := forall_comments hcomments
      rw [openBehind_piece (shape_ne_unclosed hkind) hcomment]
      exact ih hlexed hlater
  | case4 offset done c rest piece next kind hkind ih =>
      obtain ⟨hcomment, hlater⟩ := forall_comments hcomments
      rw [openBehind_piece (shape_ne_unclosed hkind) hcomment]
      exact ih hlexed hlater

theorem openString_of_lexed {source : List Char} (hlexed : (lex source).failure = none)
    (hcomments : ∀ comment ∈ comments source, HidesQuotes comment) :
    (ofBuffer source).openString = false :=
  openBehind_source hlexed hcomments

end Index

/-! ## Publishing -/

/-- The parentheses of a text that is read match. -/
theorem Index.balance_of_parse {limit : Int} {source : List Char} {forms : List Form}
    (h : parse limit source = .ok forms) : (ofBuffer source).balance = 0 := by
  obtain ⟨hlexed, n, hdata, -⟩ := parse_eq_ok_iff.mp h
  rw [balance_ofBuffer hlexed, balance_of_data hdata (lex_marksParens source)]

namespace Server

theorem publish_of_read {limit : Int} {text : String} {forms : List Form}
    (h : parse limit text.toList = .ok forms) (uri : String) :
    publish limit uri (.ofText text) = .published uri
      (if (Index.ofBuffer text.toList).openString then
        [Document.warning "Unmatched quote detected"] else []) := by
  have hbalance := Index.balance_of_parse h
  simp only [publish, Document.diagnostics, Document.ofText, diagnose, h, hbalance]
  rfl

theorem publish_of_fault {limit : Int} {text : String} {e : ParseError}
    (h : parse limit text.toList = .error (.parse e)) (uri : String) :
    ∃ warnings, publish limit uri (.ofText text) = .published uri
      (⟨.ofLength e.position 1, e.fault.message, .error⟩ :: warnings) := by
  simp only [publish, Document.diagnostics, Document.ofText, diagnose, h]
  exact ⟨_, rfl⟩

theorem publish_of_long_numeral {limit : Int} {text : String}
    (h : parse limit text.toList = .error .numeralTooLong) (uri : String) :
    publish limit uri (.ofText text) = .undiagnosed .numeralTooLong := by
  simp only [publish, Document.diagnostics, Document.ofText, diagnose, h]
  rfl

/-- **Diagnostics and the reader.** Of an opened or changed document no diagnostics are published
exactly if the reader accepts its text and the scan by lines finds no string open at its end. An
accepted text is not warned of but for such a string, and not even that if no comment of it holds a
double quote behind a line break. If the reader finds a fault, that is the first of the diagnostics.
Only a numeral that is too long keeps a document from being diagnosed. -/
theorem published_diagnostics (server : Server) (uri text : String) :
    let reading := parse server.limit text.toList
    let isOpen := (Index.ofBuffer text.toList).openString
    let response := (server.answer (.update uri text)).1
    (response = .published uri [] ↔ (∃ forms, reading = .ok forms) ∧ isOpen = false) ∧
    (∀ forms, reading = .ok forms →
      response = .published uri
        (if isOpen then [Document.warning "Unmatched quote detected"] else []) ∧
      ((∀ comment ∈ comments text.toList, HidesQuotes comment) → isOpen = false)) ∧
    (∀ e, reading = .error (.parse e) → ∃ warnings, response = .published uri
      (⟨.ofLength e.position 1, e.fault.message, .error⟩ :: warnings)) ∧
    (reading = .error .numeralTooLong ↔ response = .undiagnosed .numeralTooLong) := by
  intro reading isOpen response
  have hresponse : response = publish server.limit uri (.ofText text) := rfl
  cases hread : reading with
  | ok forms =>
      rw [hresponse, publish_of_read hread uri]
      refine ⟨?_, fun _ _ => ⟨rfl, ?_⟩, by rintro e ⟨⟩, by simp⟩
      · cases hopen : (Index.ofBuffer text.toList).openString <;> simp [isOpen, hopen]
      · exact Index.openString_of_lexed (parse_eq_ok_iff.mp hread).1
  | error e =>
      cases e with
      | parse e =>
          obtain ⟨warnings, hwarnings⟩ := publish_of_fault hread uri
          rw [hresponse, hwarnings]
          refine ⟨by simp, by rintro forms ⟨⟩, ?_, by simp⟩
          rintro _ ⟨⟩
          exact ⟨warnings, rfl⟩
      | numeralTooLong =>
          rw [hresponse, publish_of_long_numeral hread uri]
          exact ⟨by simp, by rintro forms ⟨⟩, by rintro e ⟨⟩, by simp⟩

/-- A comment with a carriage return and a double quote behind it: the reader accepts the text, and
the document gets a warning. -/
theorem quote_behind_return :
    let text := ";\r\""
    parse 10000 text.toList = .ok [] ∧
      ((start 10000).answer (.update "a" text)).1 =
        .published "a" [Document.warning "Unmatched quote detected"] ∧
      ((start 10000).answer (.update "a" text)).1 ≠ .published "a" [] := by
  decide +kernel

end Server

end TableLisp

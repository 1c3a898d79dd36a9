import TableLisp.Editor.Index
import TableLisp.Proofs.Reader.Faults

/-!
# Where faults are reported

A fault is reported at a character that is no blank, or at the end of the source if a dotted list is
left open there (`reported_place`). Tokens and failures of the lexer stand where a piece begins that
is no blank (`Scan.begins`), and the reader refuses nothing without an offset but such a list: it is
only asked for a form where a token stands (`Datum.readAll_begun`).

For the same reason the reader never meets the end of the input where it would have to report that,
and as every character begins a piece (`Piece.isAtomChar_of_other`) none is unexpected.
-/

namespace TableLisp

open Text

/-! ## Characters at which pieces begin -/

/-- A blank is a piece by itself, and is passed over. -/
theorem Piece.kind?_of_isBlank {c : Char} (h : isBlank c = true) (rest source : List Char)
    (offset : Nat) : (cut c rest).kind? source offset = .ok none := by
  rw [cut, if_pos h]
  rfl

/-- The character at an offset is there, and it is no blank. -/
def StandsAt (source : List Char) (offset : Nat) : Prop :=
  ∃ c, source[offset]? = some c ∧ isBlank c = false

theorem standsAt_of_drop {source : List Char} {offset : Nat} {c : Char} {rest : List Char}
    (hrest : source.drop offset = c :: rest)
    (hkind : (Piece.cut c rest).kind? source offset ≠ .ok none) : StandsAt source offset := by
  refine ⟨c, ?_, ?_⟩
  · rw [← List.head?_drop, hrest, List.head?_cons]
  · cases hblank : isBlank c with
    | false => rfl
    | true => exact absurd (Piece.kind?_of_isBlank hblank ..) hkind

theorem Scan.begins {source : List Char} {rounds offset : Nat} {tokens : List Token}
    (h : Scan source rounds offset tokens) : ∀ token ∈ tokens, StandsAt source token.offset := by
  induction h with
  | start => exact List.forall_mem_nil _
  | @round _ offset tokens c rest kind _ hrest hkind ih =>
      cases kind with
      | none =>
          rw [Piece.token?, Option.map_none, Option.toList_none, List.append_nil]
          exact ih
      | some kind =>
          have hstands : StandsAt source offset :=
            standsAt_of_drop hrest (by rw [hkind]; rintro ⟨⟩)
          exact List.forall_mem_append.mpr ⟨ih, List.forall_mem_singleton.mpr hstands⟩

theorem ScanEnds.standsAt {source : List Char} {stop : Nat} {e : ReadError}
    (h : ScanEnds source stop (some e)) : StandsAt source stop := by
  obtain ⟨c, rest, hrest, hkind⟩ := h
  exact standsAt_of_drop hrest (by rw [hkind]; rintro ⟨⟩)

/-! ## The failures of the lexer -/

/-- The faults that the lexer reports. -/
def Fault.IsLexical : Fault → Prop
  | unterminatedString | integerRange _ | invalidNumber _ => True
  | _ => False

theorem Piece.isLexical {source : List Char} {offset : Nat} {c : Char} {rest : List Char}
    {e : ParseError} (h : (cut c rest).kind? source offset = .error (.parse e)) :
    e.fault.IsLexical := by
  rcases atom_of_error h with hopen | ⟨atom, after, -, -, -, -, hkind⟩
  · cases hopen
    trivial
  · revert hkind
    fun_cases atomKind source atom offset with
    | case1 | case2 | case3 | case6 => rintro ⟨⟩
    | case4 | case5 =>
        rintro ⟨⟩
        trivial

/-! ## The refusals of the reader -/

namespace Datum

/-- A form is expected within some open construct, and nowhere else. -/
def Progress.Begun : Progress → Prop
  | .reading [] _ => False
  | .refused refusal _ => refusal.fault ≠ .nothingToRead
  | _ => True

theorem deliver_begun (form : Form) (stack : List Opening) (depth : Nat) :
    (deliver form stack depth).Begun := by
  fun_induction deliver form stack depth with
  | case2 form offset stack depth ih => exact ih
  | case1 | case3 | case4 => trivial

theorem descend_begun (limit : Int) (opening : Opening) (offset : Nat) (stack : List Opening)
    (depth : Nat) : (descend limit opening offset stack depth).Begun := by
  unfold descend
  split
  · exact Fault.noConfusion
  · trivial

theorem shift_begun (limit : Int) (stack : List Opening) (depth : Nat) (token : Token)
    (last : Bool) : (shift limit stack depth token last).Begun := by
  fun_cases shift limit stack depth token last with
  | case1 | case2 | case3 | case7 => exact deliver_begun ..
  | case5 | case6 => exact descend_begun ..
  | case4 | case9 => trivial
  | case8 | case10 => exact Fault.noConfusion

theorem close_begun (form : Form) (stack : List Opening) (depth : Nat) (token : Token) :
    (close form stack depth token).Begun := by
  unfold close
  split
  · exact deliver_begun ..
  · exact Fault.noConfusion

theorem readOn_begun {limit : Int} {progress : Progress} {tokens : List Token}
    {refusal : Refusal} (h : progress.Begun)
    (hrefused : (readOn limit progress tokens).outcome = .error refusal) :
    refusal.fault ≠ .nothingToRead := by
  fun_induction readOn limit progress tokens with
  | case1 => cases hrefused
  | case2 refusal' depth rest =>
      obtain rfl : refusal' = refusal := Except.error.inj hrefused
      exact h
  | case3 stack depth =>
      obtain rfl : missing stack = refusal := Except.error.inj hrefused
      rcases stack with _ | ⟨_ | _ | _, stack⟩
      · exact h.elim
      all_goals exact Fault.noConfusion
  | case4 | case5 =>
      cases hrefused
      exact Fault.noConfusion
  | case6 stack depth token rest hends ih => exact ih (shift_begun ..) hrefused
  | case7 form stack depth token rest ih => exact ih (close_begun ..) hrefused

/-- A form is asked for only where there is a token. -/
theorem readAll_begun {limit : Int} {tokens : List Token} {refusal : Refusal}
    (h : readAll limit tokens = .error refusal) : refusal.fault ≠ .nothingToRead := by
  obtain ⟨-, -, -, token, rest, -, -, -, hrefused⟩ := readAll_refused h
  have hends : endsAfterDot [] token = none := by
    unfold endsAfterDot
    rfl
  rw [read, readOn, hends] at hrefused
  exact readOn_begun (shift_begun ..) hrefused

/-- Without an offset nothing is refused but a dotted list that is left open. -/
theorem Refusal.Occurs.fault_of_no_offset {refusal : Refusal} (h : refusal.Occurs)
    (hbegun : refusal.fault ≠ .nothingToRead) (hoffset : refusal.offset = none) :
    refusal.fault = .tailNotClosed := by
  cases h with
  | atToken offset h => cases hoffset
  | missing stack =>
      rcases stack with _ | ⟨_ | _ | _, stack⟩
      · exact absurd rfl hbegun
      all_goals cases hoffset
  | unclosed => rfl

/-- The reader looks at no characters. -/
theorem Refusal.Occurs.not_unexpected {refusal : Refusal} (h : refusal.Occurs) (c : Char) :
    refusal.fault ≠ .unexpectedCharacter c := by
  cases h with
  | atToken offset h =>
      rintro rfl
      simp at h
  | missing stack =>
      rcases stack with _ | ⟨_ | _ | _, stack⟩
      all_goals exact Fault.noConfusion
  | unclosed => exact Fault.noConfusion

end Datum

/-! ## Faults of a source -/

section

variable {limit : Int} {source : List Char} {e : ParseError}

/-- Neither the end of the input nor a character is unexpected. -/
theorem fault_of_parse (h : parse limit source = .error (.parse e)) :
    e.fault ≠ .nothingToRead ∧ ∀ c, e.fault ≠ .unexpectedCharacter c := by
  rcases parse_eq_error_iff.mp h with ⟨refusal, hread, -, herror⟩ | ⟨hfailure, -⟩
  · obtain rfl : ParseError.locate source refusal.fault _ = e := ReadError.parse.inj herror
    exact ⟨Datum.readAll_begun hread, (Datum.readAll_occurs hread).not_unexpected⟩
  · obtain ⟨rounds, stop, -, hends⟩ := exists_scan source
    rw [hfailure] at hends
    obtain ⟨c, rest, -, hkind⟩ := hends
    have hlexical := Piece.isLexical hkind
    refine ⟨fun heq => ?_, fun c heq => ?_⟩ <;> exact (heq ▸ hlexical : Fault.IsLexical _)

/-- A fault stands where a token or an atom does, unless it is at the end of the source. -/
theorem standsAt_of_parse (h : parse limit source = .error (.parse e)) :
    StandsAt source e.offset ∨ e.offset = source.length ∧ e.fault = .tailNotClosed := by
  obtain ⟨rounds, stop, hscan, hends⟩ := exists_scan source
  rcases parse_eq_error_iff.mp h with ⟨refusal, hread, -, herror⟩ | ⟨hfailure, -⟩
  · obtain rfl : ParseError.locate source refusal.fault _ = e := ReadError.parse.inj herror
    show StandsAt source (refusal.offset.getD source.length) ∨
      refusal.offset.getD source.length = source.length ∧ refusal.fault = .tailNotClosed
    cases hoffset : refusal.offset with
    | none =>
        have hbegun := Datum.readAll_begun hread
        exact .inr ⟨rfl, (Datum.readAll_occurs hread).fault_of_no_offset hbegun hoffset⟩
    | some offset =>
        obtain ⟨token, htoken, rfl⟩ := Datum.offset_of_refusal hread hoffset
        exact .inl (hscan.begins token htoken)
  · rw [hfailure] at hends
    have hstands := hends.standsAt
    rcases hends.at_failure with ⟨fault, heq⟩ | ⟨⟨⟩, -⟩
    cases heq
    exact .inl hstands

end

/-! ## Wordings -/

theorem not_prefix_of_head {text cs : List Char} {c d : Char} (htext : text.head? = some c)
    (hcs : cs.head? = some d) (hne : ¬ c = d) : ¬ text <+: cs := by
  rintro ⟨rest, rfl⟩
  rw [List.head?_append, htext] at hcs
  exact hne (Option.some.inj hcs)

theorem head?_toList_append {s : String} {c : Char} (h : s.toList.head? = some c) (t : String) :
    (s ++ t).toList.head? = some c := by
  rw [String.toList_append, List.head?_append, h]
  rfl

/-- The wordings of the other faults begin otherwise. -/
theorem Fault.message_begins {fault : Fault} (hend : fault ≠ .nothingToRead)
    (hchar : ∀ c, fault ≠ .unexpectedCharacter c) :
    ∀ text ∈ ["Unexpected character", "Unexpected end of input", "Unknown token"],
      ¬ text.toList <+: fault.message.toList := by
  have hheads : ∀ text ∈ ["Unexpected character", "Unexpected end of input", "Unknown token"],
      text.toList.head? = some 'U' := by decide
  have hother : ¬ 'U' = 'I' := by decide
  cases fault with
  | unexpectedCharacter c => exact absurd rfl (hchar c)
  | nothingToRead => exact absurd rfl hend
  | integerRange numeral =>
      intro text htext
      have hmessage : (integerRange numeral).message.toList.head? = some 'I' :=
        head?_toList_append (by decide) numeral
      exact not_prefix_of_head (hheads text htext) hmessage hother
  | invalidNumber atom =>
      intro text htext
      have hmessage : (invalidNumber atom).message.toList.head? = some 'I' :=
        head?_toList_append (by decide) atom
      exact not_prefix_of_head (hheads text htext) hmessage hother
  | _ => decide

/-! ## Places -/

/-- An error tells where it is in its source. -/
structure ParseError.Places (e : ParseError) (source : List Char) : Prop where
  /-- The offset lies in the source. -/
  within : e.offset ≤ source.length
  /-- It is the end of the source only if a dotted list is left open there. -/
  atEnd : e.offset = source.length → e.fault = .tailNotClosed
  /-- Elsewhere it is that of a character that is no blank. -/
  atCharacter : ∀ c, source[e.offset]? = some c → isBlank c = false
  /-- The line is counted by the line feeds in front. -/
  line_eq : e.line = 1 + (source.take e.offset).count '\n'
  /-- The lines before and the column lead to the offset. -/
  leads : (((source.splitOn '\n').take (e.line - 1)).map (·.length + 1)).sum + (e.column - 1) =
    e.offset
  /-- The column does not lie behind its line. -/
  inLine : ∃ line, (source.splitOn '\n')[e.line - 1]? = some line ∧ e.column - 1 ≤ line.length

/-- **Reported places.** If a source is refused with an error, the error lies in the source: at a
character that is no blank, or at the end if a dotted list is left open there. Its line and its
column lead to its offset, and an editor that looks for the offset finds the same place, which is
the one that it is shown. Neither a character nor the end of the input is reported as unexpected,
nor a token as unknown. -/
theorem reported_place {limit : Int} {source : List Char} {e : ParseError}
    (h : parse limit source = .error (.parse e)) :
    e.Places source ∧
      Position.inBuffer source e.offset = ⟨e.line - 1, e.column - 1⟩ ∧
      diagnose limit source = .ok [⟨⟨e.line - 1, e.column - 1⟩, e.fault.message⟩] ∧
      ∀ text ∈ ["Unexpected character", "Unexpected end of input", "Unknown token"],
        ¬ text.toList <+: e.fault.message.toList := by
  obtain ⟨hwithin, hlocated⟩ := place_of_parse h
  have hposition : e.position = .ofOffset source e.offset := congrArg ParseError.position hlocated
  have hline : e.line - 1 = (Position.ofOffset source e.offset).line := by
    rw [← hposition]
    rfl
  have hcolumn : e.column - 1 = (Position.ofOffset source e.offset).column := by
    rw [← hposition]
    rfl
  obtain ⟨hleads, line, hsome, hle⟩ := Position.ofOffset_lines hwithin
  refine ⟨⟨hwithin, fun hend => ?_, fun c hc => ?_, ?_, ?_, ⟨line, ?_, ?_⟩⟩, ?_, ?_, ?_⟩
  · rcases standsAt_of_parse h with ⟨c, hc, -⟩ | ⟨-, hfault⟩
    · rw [hend, List.getElem?_eq_none (Nat.le_refl _)] at hc
      cases hc
    · exact hfault
  · rcases standsAt_of_parse h with ⟨d, hd, hblank⟩ | ⟨hend, -⟩
    · obtain rfl : d = c := Option.some.inj (hd.symm.trans hc)
      exact hblank
    · rw [hend, List.getElem?_eq_none (Nat.le_refl _)] at hc
      cases hc
  · rw [ParseError.line, hposition, Nat.add_comm]
    rfl
  · rwa [hline, hcolumn]
  · rwa [hline]
  · rwa [hcolumn]
  · rw [Position.inBuffer_eq_ofOffset, hline, hcolumn]
  · rw [diagnose, h]
    rfl
  · obtain ⟨hend, hchar⟩ := fault_of_parse h
    exact Fault.message_begins hend hchar

/-- The tail of the dotted list is read, and its parenthesis is missing at the end of the source,
in the second line. -/
theorem place_of_open_tail :
    let source := "(a\n  b . c ".toList
    let e : ParseError := ⟨.tailNotClosed, 11, ⟨1, 8⟩⟩
    parse 4 source = .error (.parse e) ∧ e.Places source ∧ e.offset = source.length ∧
      Position.inBuffer source 11 = ⟨1, 8⟩ ∧
      diagnose 4 source = .ok [⟨⟨1, 8⟩, "Expected ')' after dotted tail"⟩] := by
  intro source e
  have hread : parse 4 source = .error (.parse e) := by decide +kernel
  obtain ⟨hplaces, hbuffer, hshown, -⟩ := reported_place hread
  have hend : e.offset = source.length := by decide
  exact ⟨hread, hplaces, hend, hbuffer, hshown⟩

end TableLisp

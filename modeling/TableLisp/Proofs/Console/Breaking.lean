import TableLisp.Console.Repl
import TableLisp.Editor.Index
import TableLisp.Proofs.Reader.Failing
import TableLisp.Proofs.Reader.Spacing
import TableLisp.Proofs.Session.Joining
import TableLisp.Proofs.Session.Writing
import TableLisp.Table.Transform

/-!
# Breaking off

A text that cannot be read is reported: by a diagnosis as a finding, by a transformation as its
cause, by a conversation as a line. All of them rely on the reader to fail with an error that has a
place, and it does, also at a numeral that is out of range, with one exception. A numeral with more
digits than any may have gets no value, so its range is never looked at, and if nothing is amiss in
front of it, whatever asked for the text to be read is broken off (`reading_breaks_off`). A
conversation is also broken off by what it cannot write, but no session that begins with nothing
comes to that.
-/

namespace TableLisp

open Text

/-! ## Numerals out of range -/

/-- The error of a numeral that is out of range. -/
def rangeError (source atom : List Char) (offset : Nat) : ReadError :=
  if Numeral.maxDigits < (Numeral.unsigned atom).length then .numeralTooLong
  else .parse (.locate source (.integerRange (.ofList atom)) offset)

section Atom

variable {source before atom after : List Char} {tokens : List Token}

theorem AtomAt.lex_out_of_range (h : AtomAt source before atom after tokens)
    (hplain : Numeral.isPlain atom = true)
    (hrange : inWordRange (Numeral.plainValue atom) = false) :
    lex source = ⟨tokens, some (rangeError source atom before.length)⟩ := by
  apply h.lex_eq_failure
  unfold rangeError
  split
  · next hlong => exact atomKind_eq_numeralTooLong_iff.mpr ⟨hplain, hlong⟩
  · next hshort => exact atomKind_of_out_of_range hplain (Nat.not_lt.mp hshort) hrange _ _

/-- A numeral out of range is reported, unless something in front of it is. -/
theorem AtomAt.parse_out_of_range (h : AtomAt source before atom after tokens)
    (hplain : Numeral.isPlain atom = true)
    (hrange : inWordRange (Numeral.plainValue atom) = false) (limit : Int) :
    (Datum.ReachesEnd limit tokens →
      parse limit source = .error (rangeError source atom before.length)) ∧
    (∀ refusal, Datum.readAll limit tokens = .error refusal → refusal.atEnd = false →
      parse limit source = .error (refusal.error source)) := by
  have hlex := h.lex_out_of_range hplain hrange
  refine ⟨parse_of_failure hlex, fun refusal hrefused hearly => ?_⟩
  have htokens : (lex source).tokens = tokens := by rw [hlex]
  rw [← htokens] at hrefused
  exact parse_of_refusal hrefused hearly

end Atom

/-! ## Numerals that are too long -/

/-- Reading stops at a numeral with more digits than any may have: nothing is amiss before it. -/
def StopsAtNumeral (limit : Int) (source : List Char) : Prop :=
  ∃ before atom after tokens, AtomAt source before atom after tokens ∧
    Numeral.isPlain atom = true ∧ Numeral.maxDigits < (Numeral.unsigned atom).length ∧
    Datum.ReachesEnd limit tokens

theorem parse_breaks_iff {limit : Int} {source : List Char} :
    parse limit source = .error .numeralTooLong ↔ StopsAtNumeral limit source := by
  constructor
  · intro h
    obtain ⟨hfailure, hend⟩ := parse_eq_numeralTooLong_iff.mp h
    have hlex : lex source = ⟨(lex source).tokens, some .numeralTooLong⟩ := by rw [← hfailure]
    rcases atomAt_of_failure hlex with ⟨offset, heq⟩ | ⟨before, atom, after, hatom, hkind⟩
    · cases heq
    · obtain ⟨hplain, hlong⟩ := atomKind_eq_numeralTooLong_iff.mp hkind
      exact ⟨before, atom, after, _, hatom, hplain, hlong, hend⟩
  · rintro ⟨before, atom, after, tokens, hatom, hplain, hlong, hend⟩
    have hkind : atomKind source atom before.length = .error .numeralTooLong :=
      atomKind_eq_numeralTooLong_iff.mpr ⟨hplain, hlong⟩
    exact parse_of_failure (hatom.lex_eq_failure hkind) hend

/-! ## What asks for a text to be read -/

theorem diagnose_breaks_iff {limit : Int} {buffer : List Char} :
    (∀ findings, diagnose limit buffer ≠ .ok findings) ↔
      parse limit buffer = .error .numeralTooLong := by
  unfold diagnose
  split <;> simp_all

theorem Session.run_breaks_iff {session : Session} {code : String} :
    (session.run code).1 = .error (.read .numeralTooLong) ↔
      parse session.state.guard.limit code.toList = .error .numeralTooLong := by
  cases hread : parse session.state.guard.limit code.toList with
  | error e =>
      rw [run_of_unreadable hread, Except.error.injEq, Except.error.injEq, RunError.read.injEq]
  | ok forms =>
      rw [run_of_parse hread]
      generalize (session.evalForms forms).1 = outcome
      cases outcome <;> constructor <;> rintro ⟨⟩

theorem TransformError.ofRunError_eq_numeralTooLong_iff {e : RunError} :
    ofRunError e = numeralTooLong ↔ e = .read .numeralTooLong := by
  rcases e with (_ | _) | cause
  case eval => cases hwritable : cause.isWritable <;> simp [ofRunError, hwritable]
  all_goals simp [ofRunError]

theorem transform_breaks_iff {s : State} {table : Value} {program : String} :
    (transform s table program).1 = .error .numeralTooLong ↔
      parse s.guard.limit program.toList = .error .numeralTooLong := by
  let session := s.newSession.define tableName table
  have hrun : (transform s table program).1 = (session.run program).1.mapError .ofRunError := rfl
  have hguard : session.state.guard.limit = s.guard.limit := rfl
  rw [hrun, ← hguard, ← Session.run_breaks_iff]
  generalize (session.run program).1 = outcome
  cases outcome with
  | error e =>
      have hmap : (Except.error e : Except RunError Value).mapError TransformError.ofRunError =
          .error (.ofRunError e) := rfl
      rw [hmap, Except.error.injEq, Except.error.injEq]
      exact TransformError.ofRunError_eq_numeralTooLong_iff
  | ok v => constructor <;> rintro ⟨⟩

theorem Console.answer?_eq_none_iff (render : Value → String) {outcome : Except RunError Value} :
    answer? render outcome = none ↔
      outcome = .error (.read .numeralTooLong) ∨ Unwritable outcome := by
  rcases outcome with ((_ | _) | e) | v
  case error.eval => cases hwritable : e.isWritable <;> simp [answer?, Unwritable, hwritable]
  case ok => cases hwritable : v.isWritable <;> simp [answer?, Unwritable, hwritable]
  all_goals simp [answer?, Unwritable]

theorem respond_breaks_iff {render : Value → String} {session : Session} {line : String} :
    (Console.respond render session line).2.1 = false ↔
      parse session.state.guard.limit line.toList = .error .numeralTooLong ∨
        Unwritable (session.run line).1 := by
  unfold Console.respond
  cases hblank : line.toList.all isBlank with
  | true =>
      have hread := (IsGap.of_blank hblank).parse_eq_nil session.state.guard.limit
      have hrun : (session.run line).1 = .ok .nil := by rw [Session.run_of_parse hread]; rfl
      simp [hread, hrun, Unwritable, Value.isWritable]
  | false =>
      rw [← Session.run_breaks_iff, ← Console.answer?_eq_none_iff render]
      cases hanswer : Console.answer? render (session.run line).1 <;> simp [hanswer]

/-- In a session that comes upon nothing too long only reading breaks a conversation off. -/
theorem Session.IsWritable.respond_breaks_iff {render : Value → String} {session : Session}
    (h : session.IsWritable) {line : String} :
    (Console.respond render session line).2.1 = false ↔
      parse session.state.guard.limit line.toList = .error .numeralTooLong :=
  TableLisp.respond_breaks_iff.trans (or_iff_left (h.run line).2)

/-- **Breaking off.** Reading fails without a parse error exactly if it stops at a numeral with more
digits than any may have. A numeral out of range with no more digits than that is reported at its
place, unless something in front of it is reported first; no text that holds one is read. A
diagnosis, a transformation and a conversation are broken off exactly where reading is; in a session
that has been given what is too long to be written a conversation is also broken off there. -/
theorem reading_breaks_off (limit : Int) (source : List Char) :
    (((∀ forms, parse limit source ≠ .ok forms) ∧ ∀ e, parse limit source ≠ .error (.parse e)) ↔
      StopsAtNumeral limit source) ∧
    (∀ before atom after tokens, AtomAt source before atom after tokens →
      Numeral.isPlain atom = true → inWordRange (Numeral.plainValue atom) = false →
      (∀ forms, parse limit source ≠ .ok forms) ∧
      (Datum.ReachesEnd limit tokens →
        parse limit source = .error (rangeError source atom before.length)) ∧
      (∀ refusal, Datum.readAll limit tokens = .error refusal → refusal.atEnd = false →
        parse limit source = .error (refusal.error source))) ∧
    ((∀ findings, diagnose limit source ≠ .ok findings) ↔ StopsAtNumeral limit source) ∧
    (∀ (s : State) (table : Value) (program : String),
      (transform s table program).1 = .error .numeralTooLong ↔
        StopsAtNumeral s.guard.limit program.toList) ∧
    (∀ (render : Value → String) (session : Session) (line : String),
      ((Console.respond render session line).2.1 = false ↔
        StopsAtNumeral session.state.guard.limit line.toList ∨
          Unwritable (session.run line).1) ∧
      (session.IsWritable →
        ((Console.respond render session line).2.1 = false ↔
          StopsAtNumeral session.state.guard.limit line.toList))) := by
  refine ⟨?_, ?_, diagnose_breaks_iff.trans parse_breaks_iff,
    fun _ _ _ => transform_breaks_iff.trans parse_breaks_iff,
    fun _ _ _ => ⟨respond_breaks_iff.trans (or_congr_left parse_breaks_iff),
      fun hwritable => hwritable.respond_breaks_iff.trans parse_breaks_iff⟩⟩
  · rw [← parse_breaks_iff]
    rcases parse limit source with (e | _) | forms <;> simp
  · intro before atom after tokens hatom hplain hrange
    have hlex := hatom.lex_out_of_range hplain hrange
    obtain ⟨hreached, hearlier⟩ := hatom.parse_out_of_range hplain hrange limit
    refine ⟨fun forms hread => ?_, hreached, hearlier⟩
    have hlexed := (parse_eq_ok_iff.mp hread).1
    rw [hlex] at hlexed
    cases hlexed

/-- A numeral of 4301 ones is out of range, and it breaks the reading off. -/
theorem ones_break_off :
    let ones := List.replicate 4301 '1'
    Numeral.isPlain ones = true ∧ inWordRange (Numeral.plainValue ones) = false ∧
      parse 10000 ones = .error .numeralTooLong ∧
      ∀ e, parse 10000 ones ≠ .error (.parse e) := by
  intro ones
  have hplain : Numeral.isPlain ones = true := by decide +kernel
  have hones : ∀ c ∈ ones, isAtomChar c = true := by
    intro c hc
    rw [List.eq_of_mem_replicate hc]
    rfl
  have hatom : AtomAt ones [] ones [] [] :=
    ⟨(List.append_nil ones).symm, .nil 0 _, List.cons_ne_nil _ _, hones, endsAtom_nil⟩
  have hlong : Numeral.maxDigits < (Numeral.unsigned ones).length := by decide +kernel
  have hend : Datum.ReachesEnd 10000 [] := by
    rw [Datum.ReachesEnd, Datum.readAll]
    rintro refusal ⟨⟩
  have hparse : parse 10000 ones = .error .numeralTooLong :=
    parse_breaks_iff.mpr ⟨[], ones, [], [], hatom, hplain, hlong, hend⟩
  refine ⟨hplain, by decide +kernel, hparse, fun e he => ?_⟩
  rw [hparse] at he
  cases he

end TableLisp

import TableLisp.Proofs.Console.Breaking

/-!
# Conversations line by line

A conversation takes its lines one at a time, and a program is run as a whole. Lines that are all
read and run come to the same either way: run as one program they answer what the conversation
answers the last of them (`Session.run_intercalate`).

What a conversation has written up to a line, and the session it has then, do not depend on what
follows (`Console.converse_append`). So a line that leaves the session as it was, a blank one or one
that cannot be read, can be put anywhere, and nothing else that is written changes.

Both are said of sessions that come upon nothing too long to be written (`Session.IsWritable`). Every
new session is one, and stays one whatever is run in it.
-/

namespace TableLisp

open Text

/-! ## What is written -/

namespace Transcript

theorem append_eq (a b : Transcript) : a ++ b = ⟨a.output ++ b.output, a.errors ++ b.errors⟩ :=
  rfl

theorem append_assoc (a b c : Transcript) : a ++ b ++ c = a ++ (b ++ c) := by
  simp only [append_eq, String.append_assoc]

theorem empty_append (a : Transcript) : (⟨"", ""⟩ : Transcript) ++ a = a := by
  simp only [append_eq, String.empty_append]

end Transcript

/-! ## Lines as one program -/

theorem not_blank_of_parse {limit : Int} {text : List Char} {outcome : Except ReadError (List Form)}
    (h : parse limit text = outcome) (hne : outcome ≠ .ok []) : text.all isBlank = false := by
  rw [Bool.eq_false_iff]
  exact fun hblank => hne (h.symm.trans ((IsGap.of_blank hblank).parse_eq_nil limit))

/-- There is something in a text to be run, and it can be read. -/
def HasForms (limit : Int) (text : String) : Prop :=
  ∃ form forms, parse limit text.toList = .ok (form :: forms)

theorem HasForms.not_blank {limit : Int} {text : String} (h : HasForms limit text) :
    text.toList.all isBlank = false := by
  obtain ⟨form, forms, hread⟩ := h
  exact not_blank_of_parse hread (by simp)

theorem HasForms.goesOn {limit : Int} {text : String} (h : HasForms limit text) :
    parse limit text.toList ≠ .error .numeralTooLong := by
  obtain ⟨form, forms, hread⟩ := h
  simp [hread]

theorem parse_joined_lines {limit : Int} {first second : String} {forms later : List Form}
    (hfirst : parse limit first.toList = .ok forms)
    (hsecond : parse limit second.toList = .ok later) :
    parse limit (first ++ "\n" ++ second).toList = .ok (forms ++ later) := by
  rw [Session.toList_joined]
  exact (parse_joined hfirst _ _).mpr ⟨later, hsecond, rfl⟩

theorem HasForms.joined {limit : Int} {first second : String} (hfirst : HasForms limit first)
    (hsecond : HasForms limit second) : HasForms limit (first ++ "\n" ++ second) := by
  obtain ⟨form, forms, hfirst⟩ := hfirst
  obtain ⟨form', later, hsecond⟩ := hsecond
  exact ⟨form, forms ++ form' :: later, parse_joined_lines hfirst hsecond⟩

theorem HasForms.intercalate {limit : Int} : ∀ {lines : List String}, lines ≠ [] →
    (∀ line ∈ lines, HasForms limit line) → HasForms limit ("\n".intercalate lines)
  | [], hne, _ => absurd rfl hne
  | [line], _, h => by
      rw [String.intercalate_singleton]
      exact h line List.mem_cons_self
  | line :: next :: rest, _, h => by
      obtain ⟨hline, hrest⟩ := List.forall_mem_cons.mp h
      rw [String.intercalate_cons_cons]
      exact hline.joined (intercalate (List.cons_ne_nil next rest) hrest)

namespace Session

theorem guard_runAll : ∀ (codes : List String) (session : Session),
    (session.runAll codes).2.state.guard = session.state.guard
  | [], _ => rfl
  | code :: rest, session => by
      rw [runAll_cons]
      exact (guard_runAll rest _).trans (guard_run session code)

theorem runAll_append (later : List String) : ∀ (codes : List String) (session : Session),
    session.runAll (codes ++ later) =
      let first := session.runAll codes
      let rest := first.2.runAll later
      (first.1 ++ rest.1, rest.2)
  | [], _ => rfl
  | code :: rest, session => by
      simp only [List.cons_append, runAll_cons, runAll_append later rest]

/-- Behind a program that succeeds, a program with something in it is run as it is by itself. -/
theorem run_behind {session after : Session} {first second : String} {v : Value}
    (hfirst : HasForms session.state.guard.limit first)
    (hsecond : HasForms session.state.guard.limit second)
    (hrun : session.run first = (.ok v, after)) :
    session.run (first ++ "\n" ++ second) = after.run second := by
  obtain ⟨form, forms, hfirst⟩ := hfirst
  obtain ⟨form', later, hsecond⟩ := hsecond
  have hjoined := parse_joined_lines hfirst hsecond
  have hguard : after.state.guard = session.state.guard := by
    have hkept := guard_run session first
    rwa [hrun] at hkept
  rw [← hguard] at hsecond
  rw [run_of_parse hfirst] at hrun
  rw [run_of_parse hjoined, run_of_parse hsecond, evalForms_append]
  generalize session.evalForms (form :: forms) = outcome at hrun
  obtain ⟨answer, session'⟩ := outcome
  cases answer with
  | error e => cases hrun
  | ok w =>
      cases hrun
      rfl

/-- Lines that are all run come to what the last of them comes to behind the others. -/
theorem run_intercalate (last : String) : ∀ {init : List String} {session : Session},
    (∀ line ∈ init ++ [last], HasForms session.state.guard.limit line) →
    (∀ answer ∈ (session.runAll init).1, ∃ v, answer = .ok v) →
    session.run ("\n".intercalate (init ++ [last])) = (session.runAll init).2.run last
  | [], _, _, _ => by rw [List.nil_append, String.intercalate_singleton]; rfl
  | line :: rest, session, hforms, hok => by
      obtain ⟨hline, hrest⟩ := List.forall_mem_cons.mp hforms
      rw [runAll_cons] at hok ⊢
      obtain ⟨⟨v, hv⟩, hlater⟩ := List.forall_mem_cons.mp hok
      have hrun : session.run line = (.ok v, (session.run line).2) := Prod.ext hv rfl
      have hjoined : "\n".intercalate (line :: rest ++ [last]) =
          line ++ "\n" ++ "\n".intercalate (rest ++ [last]) := by
        cases rest <;> exact String.intercalate_cons_cons
      have hne : rest ++ [last] ≠ [] := by simp
      rw [hjoined, run_behind hline (.intercalate hne hrest) hrun]
      rw [← guard_run session line] at hrest
      exact run_intercalate last hrest hlater

end Session

namespace Console

variable {render : Value → String} {farewell : Farewell} {session : Session} {line : String}

/-! ## One line -/

/-- Behind a line the session is as it was, or as it is behind a program. -/
theorem respond_session (render : Value → String) (session : Session) (line : String) :
    (respond render session line).2.2 = session ∨
      (respond render session line).2.2 = (session.run line).2 := by
  unfold respond
  split
  · exact .inl rfl
  · dsimp only
    split <;> exact .inr rfl

/-- The answer to a line leaves the guard as it was. -/
theorem guard_respond (render : Value → String) (session : Session) (line : String) :
    (respond render session line).2.2.state.guard = session.state.guard := by
  rcases respond_session render session line with h | h <;> rw [h]
  exact Session.guard_run session line

theorem isWritable_respond (h : session.IsWritable) (render : Value → String) (line : String) :
    (respond render session line).2.2.IsWritable := by
  rcases respond_session render session line with hsame | hrun
  · rwa [hsame]
  · rw [hrun]
    exact (h.run line).1

theorem respond_of_blank (render : Value → String) (session : Session)
    (h : line.toList.all isBlank = true) :
    respond render session line = (⟨"", ""⟩, true, session) := by
  rw [respond, if_pos h]

theorem respond_of_fault (render : Value → String) {e : ParseError}
    (h : parse session.state.guard.limit line.toList = .error (.parse e)) :
    respond render session line = (⟨"", "Parse error: " ++ e.message ++ "\n"⟩, true, session) := by
  have hblank : line.toList.all isBlank = false := not_blank_of_parse h (by simp)
  simp [respond, hblank, Session.run_of_unreadable h, answer?]

theorem respond_of_value (render : Value → String) {v : Value} {after : Session}
    (hforms : HasForms session.state.guard.limit line) (hrun : session.run line = (.ok v, after))
    (hwritable : v.isWritable = true) :
    respond render session line = (⟨render v ++ "\n", ""⟩, true, after) := by
  simp [respond, hforms.not_blank, hrun, answer?, hwritable]

/-! ## Many lines -/

/-- What some lines and their answers write, and the session behind them. -/
def exchange (render : Value → String) (session : Session) : List String → Transcript × Session
  | [] => (⟨"", ""⟩, session)
  | line :: rest =>
    let (written, _, session) := respond render session line
    let (later, session) := exchange render session rest
    ((⟨prompt, ""⟩ : Transcript) ++ written ++ later, session)

theorem exchange_cons (render : Value → String) (session : Session) (line : String)
    (rest : List String) :
    exchange render session (line :: rest) =
      let answer := respond render session line
      let later := exchange render answer.2.2 rest
      ((⟨prompt, ""⟩ : Transcript) ++ answer.1 ++ later.1, later.2) := rfl

theorem guard_exchange (render : Value → String) : ∀ (lines : List String) (session : Session),
    (exchange render session lines).2.state.guard = session.state.guard
  | [], _ => rfl
  | line :: rest, session => by
      rw [exchange_cons]
      exact (guard_exchange render rest _).trans (guard_respond render session line)

theorem converse_cons {written : Transcript} {after : Session}
    (h : respond render session line = (written, true, after)) (rest : List String) :
    converse render farewell session (line :: rest) =
      let later := converse render farewell after rest
      ((⟨prompt, ""⟩ : Transcript) ++ written ++ later.1, later.2) := by
  simp only [converse, h, if_true]

theorem isWritable_exchange (render : Value → String) : ∀ (lines : List String)
    {session : Session}, session.IsWritable → (exchange render session lines).2.IsWritable
  | [], _, h => h
  | line :: rest, _, h => by
      rw [exchange_cons]
      exact isWritable_exchange render rest (isWritable_respond h render line)

/-- A conversation goes on behind lines that do not break it off. -/
theorem converse_append (after : List String) : ∀ {before : List String} {session : Session},
    session.IsWritable →
    (∀ line ∈ before, parse session.state.guard.limit line.toList ≠ .error .numeralTooLong) →
    converse render farewell session (before ++ after) =
      let sofar := exchange render session before
      let later := converse render farewell sofar.2 after
      (sofar.1 ++ later.1, later.2)
  | [], session, _, _ => by
      rw [List.nil_append, exchange]
      dsimp only
      rw [Transcript.empty_append]
  | line :: rest, session, hwritable, h => by
      obtain ⟨hline, hrest⟩ := List.forall_mem_cons.mp h
      have hgoesOn : (respond render session line).2.1 = true := by
        rw [← Bool.not_eq_false]
        exact fun hbroken => hline (hwritable.respond_breaks_iff.mp hbroken)
      have hlater := isWritable_respond hwritable render line
      have hrespond : respond render session line =
          ((respond render session line).1, true, (respond render session line).2.2) :=
        Prod.ext rfl (Prod.ext hgoesOn rfl)
      rw [← guard_respond render session line] at hrest
      rw [List.cons_append, converse_cons hrespond, converse_append after hlater hrest,
        exchange_cons]
      simp only [Transcript.append_assoc]

/-- A conversation that is not broken off ends with status zero. -/
theorem converse_exit {lines : List String} (hwritable : session.IsWritable)
    (h : ∀ line ∈ lines, parse session.state.guard.limit line.toList ≠ .error .numeralTooLong) :
    (converse render farewell session lines).2 = .exit 0 := by
  rw [← List.append_nil lines, converse_append [] hwritable h]
  rfl

/-- Lines that are all run write nothing but answers, and the session is that of their runs. -/
theorem exchange_of_values (render : Value → String) : ∀ {lines : List String} {session : Session},
    session.IsWritable →
    (∀ line ∈ lines, HasForms session.state.guard.limit line) →
    (∀ answer ∈ (session.runAll lines).1, ∃ v, answer = .ok v) →
    ∃ answers, exchange render session lines = (⟨answers, ""⟩, (session.runAll lines).2) ∧
      (session.runAll lines).2.IsWritable
  | [], _, hwritable, _, _ => ⟨"", rfl, hwritable⟩
  | line :: rest, session, hwritable, hforms, hok => by
      obtain ⟨hline, hrest⟩ := List.forall_mem_cons.mp hforms
      rw [Session.runAll_cons] at hok ⊢
      obtain ⟨⟨v, hv⟩, hlater⟩ := List.forall_mem_cons.mp hok
      have hrun : session.run line = (.ok v, (session.run line).2) := Prod.ext hv rfl
      rw [← Session.guard_run session line] at hrest
      obtain ⟨answers, hanswers, hafter⟩ :=
        exchange_of_values render (hwritable.run line).1 hrest hlater
      rw [exchange_cons, respond_of_value render hline hrun (hwritable.value hv)]
      dsimp only
      rw [hanswers]
      exact ⟨_, rfl, hafter⟩

/-! ## Whole conversations -/

/-- A conversation from some line on. -/
theorem repl_append (version : String) {before : List String} (hwritable : session.IsWritable)
    (hgoesOn : ∀ line ∈ before,
      parse session.state.guard.limit line.toList ≠ .error .numeralTooLong)
    (after : List String) :
    repl version render farewell session (before ++ after) =
      let sofar := exchange render session before
      let later := converse render farewell sofar.2 after
      ((⟨banner version, ""⟩ : Transcript) ++ sofar.1 ++ later.1, later.2) := by
  rw [repl, converse_append after hwritable hgoesOn]
  simp only [Transcript.append_assoc]

/-- A line more that leaves the session as it was and does not break it off. -/
theorem repl_insert (version : String) {before after : List String} {written : Transcript}
    (hwritable : session.IsWritable)
    (hgoesOn : ∀ line ∈ before,
      parse session.state.guard.limit line.toList ≠ .error .numeralTooLong)
    (hline : respond render (exchange render session before).2 line =
      (written, true, (exchange render session before).2)) :
    repl version render farewell session (before ++ line :: after) =
      let sofar := exchange render session before
      let later := converse render farewell sofar.2 after
      ((⟨banner version, ""⟩ : Transcript) ++ sofar.1 ++ ((⟨prompt, ""⟩ : Transcript) ++ written) ++
        later.1, later.2) := by
  rw [repl_append version hwritable hgoesOn]
  dsimp only
  rw [converse_cons hline]
  simp only [Transcript.append_assoc]

/-- Lines that are all run, as one program and one by one. -/
theorem program_of_lines (version : String) (farewell : Farewell) {init : List String}
    {last : String} (hwritable : session.IsWritable)
    (hforms : ∀ line ∈ init ++ [last], HasForms session.state.guard.limit line)
    (hok : ∀ answer ∈ (session.runAll (init ++ [last])).1, ∃ v, answer = .ok v) :
    ∃ sofar answer,
      runProgram session ("\n".intercalate (init ++ [last])) = (⟨answer, ""⟩, .exit 0) ∧
      repl version (renderer false) farewell session init =
        (⟨sofar ++ (prompt ++ farewell.text), ""⟩, .exit 0) ∧
      repl version (renderer false) farewell session (init ++ [last]) =
        (⟨sofar ++ (prompt ++ answer) ++ (prompt ++ farewell.text), ""⟩, .exit 0) := by
  obtain ⟨hinit, hlast⟩ := List.forall_mem_append.mp hforms
  rw [Session.runAll_append] at hok
  obtain ⟨hbefore, hanswer⟩ := List.forall_mem_append.mp hok
  obtain ⟨v, hv⟩ : ∃ v, ((session.runAll init).2.run last).1 = .ok v :=
    hanswer _ List.mem_cons_self
  have hgoesOn (line : String) (hline : line ∈ init) := (hinit line hline).goesOn
  have hjoined := Session.run_intercalate last hforms hbefore
  obtain ⟨answers, hexchange, hafter⟩ :=
    exchange_of_values (renderer false) hwritable hinit hbefore
  have hguard := Session.guard_runAll init session
  generalize (session.runAll init).2 = after at hv hjoined hexchange hafter hguard
  rw [← hguard] at hlast
  have hrun : after.run last = (.ok v, (after.run last).2) := Prod.ext hv rfl
  have hvalue := hafter.value hv
  have hrespond :=
    respond_of_value (renderer false) (hlast last List.mem_cons_self) hrun hvalue
  refine ⟨banner version ++ answers, renderer false v ++ "\n", ?_, ?_, ?_⟩
  · simp only [runProgram, hjoined, hv, hvalue]
    rfl
  · rw [← List.append_nil init, repl_append version hwritable hgoesOn, hexchange]
    simp only [converse, Transcript.append_eq, String.empty_append]
  · rw [repl_append version hwritable hgoesOn, hexchange]
    dsimp only
    rw [converse_cons hrespond]
    simp only [converse, Transcript.append_eq, String.append_assoc, String.empty_append]

/-- **Conversations and programs.** If some lines each hold a form, are all read and, run in order
in a session, all succeed, then run as one program they succeed and print what a conversation in
that session prints for the last of them. In a conversation that is not broken off a blank line, put
anywhere, adds a prompt and nothing else; a line that is refused by the reader adds a prompt and one
line of error. The session may be a new one, or one that any programs have led to from there. -/
theorem conversation_of_lines (version : String) (farewell : Farewell) (session : Session)
    (hwritable : session.IsWritable) :
    (∀ (init : List String) (last : String),
      (∀ line ∈ init ++ [last], HasForms session.state.guard.limit line) →
      (∀ answer ∈ (session.runAll (init ++ [last])).1, ∃ v, answer = .ok v) →
      ∃ sofar answer,
        runProgram session ("\n".intercalate (init ++ [last])) = (⟨answer, ""⟩, .exit 0) ∧
        repl version (renderer false) farewell session init =
          (⟨sofar ++ (prompt ++ farewell.text), ""⟩, .exit 0) ∧
        repl version (renderer false) farewell session (init ++ [last]) =
          (⟨sofar ++ (prompt ++ answer) ++ (prompt ++ farewell.text), ""⟩, .exit 0)) ∧
    (∀ (color : Bool) (before after : List String),
      (∀ line ∈ before ++ after,
        parse session.state.guard.limit line.toList ≠ .error .numeralTooLong) →
      ∃ sofar later : Transcript,
        repl version (renderer color) farewell session (before ++ after) =
          (sofar ++ later, .exit 0) ∧
        (∀ line, line.toList.all isBlank = true →
          repl version (renderer color) farewell session (before ++ line :: after) =
            (sofar ++ ⟨prompt, ""⟩ ++ later, .exit 0)) ∧
        (∀ line e, parse session.state.guard.limit line.toList = .error (.parse e) →
          '\n' ∉ e.message.toList ∧
          repl version (renderer color) farewell session (before ++ line :: after) =
            (sofar ++ ⟨prompt, "Parse error: " ++ e.message ++ "\n"⟩ ++ later, .exit 0))) := by
  refine ⟨fun init last => program_of_lines version farewell hwritable,
    fun color before after hgoesOn => ?_⟩
  let sofar := exchange (renderer color) session before
  let later := converse (renderer color) farewell sofar.2 after
  have hguard : sofar.2.state.guard = session.state.guard := guard_exchange _ before session
  obtain ⟨hbefore, hafter⟩ := List.forall_mem_append.mp hgoesOn
  have hsofar : sofar.2.IsWritable := isWritable_exchange _ before hwritable
  have hexit : later.2 = .exit 0 := converse_exit hsofar (by rwa [hguard])
  refine ⟨⟨banner version, ""⟩ ++ sofar.1, later.1, ?_, fun line hblank => ?_,
    fun line e hfault => ⟨newline_not_mem_message hfault, ?_⟩⟩
  · rw [repl_append version hwritable hbefore, ← hexit]
  · have hline := respond_of_blank (renderer color) sofar.2 hblank
    rw [repl_insert version hwritable hbefore hline, ← hexit]
    rfl
  · rw [← hguard] at hfault
    have hline := respond_of_fault (renderer color) hfault
    rw [repl_insert version hwritable hbefore hline, ← hexit]
    rfl

/-- A definition and its use, as a program and line by line; and behind the use a blank line and an
open parenthesis. -/
theorem conversation_of_definition :
    let session := Session.start 10
    let init := ["(define x 1)"]
    let last := "(cons x x)"
    (∃ sofar answer,
      runProgram session ("\n".intercalate (init ++ [last])) = (⟨answer, ""⟩, .exit 0) ∧
      repl "1" (renderer false) .interrupt session init =
        (⟨sofar ++ (prompt ++ Farewell.interrupt.text), ""⟩, .exit 0) ∧
      repl "1" (renderer false) .interrupt session (init ++ [last]) =
        (⟨sofar ++ (prompt ++ answer) ++ (prompt ++ Farewell.interrupt.text), ""⟩, .exit 0)) ∧
    ∃ sofar later : Transcript,
      repl "1" (renderer true) .interrupt session ([last] ++ init) = (sofar ++ later, .exit 0) ∧
      repl "1" (renderer true) .interrupt session ([last] ++ " " :: init) =
        (sofar ++ ⟨prompt, ""⟩ ++ later, .exit 0) ∧
      ∃ e : ParseError, '\n' ∉ e.message.toList ∧
        repl "1" (renderer true) .interrupt session ([last] ++ "(" :: init) =
          (sofar ++ ⟨prompt, "Parse error: " ++ e.message ++ "\n"⟩ ++ later, .exit 0) := by
  intro session init last
  have hinit : parse 10 "(define x 1)".toList =
      .ok [.list [.sym "define", .sym "x", .const (.int 1)]] := by decide +kernel
  have hlast : parse 10 last.toList = .ok [.list [.sym "cons", .sym "x", .sym "x"]] := by
    decide +kernel
  have hopen : parse 10 "(".toList = .error (.parse ⟨.unmatchedOpen, 0, ⟨0, 0⟩⟩) := by
    decide +kernel
  have hforms : ∀ line ∈ init ++ [last], HasForms 10 line :=
    List.forall_mem_cons.mpr ⟨⟨_, _, hinit⟩, List.forall_mem_singleton.mpr ⟨_, _, hlast⟩⟩
  have hok : ∀ answer ∈ (session.runAll (init ++ [last])).1, ∃ v, answer = .ok v := by
    have hall : (session.runAll (init ++ [last])).1.all (·.isOk) = true := by decide +kernel
    intro answer hanswer
    cases answer with
    | ok v => exact ⟨v, rfl⟩
    | error e => cases List.all_eq_true.mp hall _ hanswer
  have hgoesOn : ∀ line ∈ [last] ++ init, parse 10 line.toList ≠ .error .numeralTooLong :=
    List.forall_mem_cons.mpr ⟨HasForms.goesOn ⟨_, _, hlast⟩,
      List.forall_mem_singleton.mpr (HasForms.goesOn ⟨_, _, hinit⟩)⟩
  obtain ⟨hprogram, hinsert⟩ :=
    conversation_of_lines "1" .interrupt session (Session.isWritable_start 10)
  obtain ⟨sofar, later, hplain, hblank, hfault⟩ := hinsert true [last] init hgoesOn
  exact ⟨hprogram init last hforms hok, sofar, later, hplain, hblank " " (by decide),
    ⟨_, hfault "(" _ hopen⟩⟩

end Console

end TableLisp

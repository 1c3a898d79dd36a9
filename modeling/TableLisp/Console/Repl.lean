import TableLisp.Console.Arguments
import TableLisp.Session
import TableLisp.Text.Line

/-!
# Running programs and talking

A program is run for the value of its last form (`runProgram`). A conversation takes lines one at
a time, runs each in the same session and shows its value; an error is reported and the
conversation goes on (`converse`). Either yields what is written and how it ends; only a numeral
that is too long, to be read or to be written, breaks it off.
-/

namespace TableLisp

open Text

/-- What was written to the two outputs. -/
structure Transcript where
  output : String
  errors : String
  deriving DecidableEq, Repr

/-- How a run ends: with an exit status, or broken off. -/
inductive Ending
  | exit (status : Nat)
  | broken (cause : Breakdown)
  deriving DecidableEq, Repr

def Transcript.append (a b : Transcript) : Transcript :=
  ⟨a.output ++ b.output, a.errors ++ b.errors⟩

instance : Append Transcript := ⟨Transcript.append⟩

namespace Console

/-! ## Programs -/

/-- What running a program writes, and how it ends. -/
def runProgram (session : Session) (code : String) : Transcript × Ending :=
  let broken : Transcript × Ending := (⟨"", ""⟩, .broken .numeralTooLong)
  match (session.run code).1 with
  | .ok v => if v.isWritable then (⟨v.text ++ "\n", ""⟩, .exit 0) else broken
  | .error (.read (.parse e)) => (⟨"", "Error: " ++ e.message ++ "\n"⟩, .exit 1)
  | .error (.eval e) =>
    if e.isWritable then (⟨"", "Error: " ++ e.message ++ "\n"⟩, .exit 1) else broken
  | .error (.read .numeralTooLong) => broken

/-! ## Conversations -/

def renderer (color : Bool) : Value → String :=
  if color then Value.coloured {} else Value.text

def prompt : String := "klisp> "

def banner (version : String) : String :=
  "klisp REPL v" ++ version ++
    "\nType expressions to evaluate. Press Ctrl+C or Ctrl+D to exit.\n\n"

/-- How the input of a conversation ends. -/
inductive Farewell
  | endOfInput
  | interrupt
  deriving DecidableEq, Repr

/-- What is shown for the key that ended the input. -/
def Farewell.text : Farewell → String
  | endOfInput => "^D\n"
  | interrupt => "^C\n"

/-- What is written for the outcome of a line, unless a numeral is too long. -/
def answer? (render : Value → String) : Except RunError Value → Option Transcript
  | .ok v => if v.isWritable then some ⟨render v ++ "\n", ""⟩ else none
  | .error (.read (.parse e)) => some ⟨"", "Parse error: " ++ e.message ++ "\n"⟩
  | .error (.eval e) =>
    if e.isWritable then some ⟨"", "Evaluation error: " ++ e.message ++ "\n"⟩ else none
  | .error (.read .numeralTooLong) => none

/-- What the answer to one line writes, and whether the conversation goes on. A blank line is not
run. -/
def respond (render : Value → String) (session : Session) (line : String) :
    Transcript × Bool × Session :=
  if line.toList.all isBlank then (⟨"", ""⟩, true, session)
  else
    let (outcome, session) := session.run line
    match answer? render outcome with
    | some written => (written, true, session)
    | none => (⟨"", ""⟩, false, session)

/-- What a conversation over some lines writes, and how it ends. -/
def converse (render : Value → String) (farewell : Farewell) (session : Session) :
    List String → Transcript × Ending
  | [] => (⟨prompt ++ farewell.text, ""⟩, .exit 0)
  | line :: rest =>
    let (written, goesOn, session) := respond render session line
    let written := (⟨prompt, ""⟩ : Transcript) ++ written
    if goesOn then
      let (later, ending) := converse render farewell session rest
      (written ++ later, ending)
    else (written, .broken .numeralTooLong)

def repl (version : String) (render : Value → String) (farewell : Farewell) (session : Session)
    (lines : List String) : Transcript × Ending :=
  let (written, ending) := converse render farewell session lines
  ((⟨banner version, ""⟩ : Transcript) ++ written, ending)

end Console

end TableLisp

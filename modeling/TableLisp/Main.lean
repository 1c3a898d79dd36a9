import TableLisp.Console.Program

/-!
# Entry point

Gives the command line its world. A conversation answers every line as it comes; all else is run in
one step.
-/

namespace TableLisp.Main

open TableLisp

def write (written : Transcript) : IO Unit := do
  IO.print written.output
  IO.eprint written.errors
  (← IO.getStdout).flush

/-- Converses until the input ends. -/
partial def converse (render : Value → String) (session : Session) : IO UInt32 := do
  write ⟨Console.prompt, ""⟩
  let line ← (← IO.getStdin).getLine
  if line.isEmpty then
    write ⟨Console.Farewell.endOfInput.text, ""⟩
    return 0
  let text := String.ofList (line.toList.takeWhile (· != '\n'))
  let (written, goesOn, session) := Console.respond render session text
  write written
  if goesOn then converse render session else return 1

/-- The failure that a number of the system stands for. Some calls give the number negated. -/
def failure? (code : UInt32) : Option FileError :=
  FileError.all.find? fun e => code.toInt32.toInt.natAbs == e.number

/-- Why the system did not let a file be read; nothing if it is for another reason. -/
def fileError? : IO.Error → Option FileError
  | .noFileOrDirectory _ code _ | .permissionDenied _ code _ | .inappropriateType _ code _
  | .invalidArgument _ code _ | .resourceExhausted _ code _ => failure? code
  | _ => none

def readFile (name : String) : IO (Except FileError String) :=
  try .ok <$> IO.FS.readFile name
  catch e =>
    match fileError? e with
    | some cause => return .error cause
    | none => throw e

/-- The environment variables that settings are read from. -/
def readVariables : IO Settings.Variables := do
  let limit ← IO.getEnv "KLISP_MAX_DEPTH"
  let level ← IO.getEnv "KLISP_LOG_LEVEL"
  let history ← IO.getEnv "KLISP_HISTORY"
  return fun name =>
    if name = "KLISP_MAX_DEPTH" then limit
    else if name = "KLISP_LOG_LEVEL" then level
    else if name = "KLISP_HISTORY" then history
    else none

end TableLisp.Main

open TableLisp in
def main (arguments : List String) : IO UInt32 := do
  let environment ← Main.readVariables
  let limit := Settings.maxDepth environment
  let task? :=
    match Command.ofArguments arguments with
    | .run options => options.task.toOption
    | _ => none
  if let some (.conversation color) := task? then
    Main.write ⟨Console.banner Console.version, ""⟩
    Main.converse (Console.renderer color) (Session.start limit)
  else
    let content ←
      match task? with
      | some (.file name) => Main.readFile name
      | _ => pure (.error .missing)
    let world : Console.World :=
      { environment, limit, read := fun _ => content, input := "", farewell := .endOfInput }
    let (written, ending) := Console.run world arguments
    Main.write written
    match ending with
    | .exit status => return status.toUInt32
    | .broken _ => return 1

import TableLisp.Console.Arguments
import TableLisp.Console.Files
import TableLisp.Console.Repl
import TableLisp.Settings

/-!
# The program

The command line as a whole: a program from an argument or from a file, or else a conversation over
the standard input. Everything around the program is given as data (`World`).
-/

namespace TableLisp

open Text

namespace Console

def version : String := "0.1.0"

/-- What the program finds around it: the environment and the depth limit that it sets, the files,
the standard input and the way in which that ends. -/
structure World where
  environment : Settings.Variables
  limit : Int
  read : String → Except FileError String
  input : String
  farewell : Farewell

def usage : String :=
  "usage: klisp [-h] [-e CODE] [--no-color] [--log-level LOG_LEVEL] [--version]\n" ++
  "             [file]\n"

/-- The help text. `logLevel` is the level that holds where none is given. -/
def help (logLevel : String) : String :=
  usage ++
  "\nklisp interpreter\n" ++
  "\npositional arguments:\n" ++
  "  file                  program file to run; starts a REPL if omitted\n" ++
  "\noptions:\n" ++
  "  -h, --help            show this help message and exit\n" ++
  "  -e CODE, --eval CODE  evaluate CODE and print the result\n" ++
  "  --no-color            disable ANSI colours in the REPL\n" ++
  "  --log-level LOG_LEVEL\n" ++
  "                        logging level (default: " ++ logLevel ++ ")\n" ++
  "  --version             show program's version number and exit\n"

/-- The code of a program file: every line ending counts as a line feed. -/
def fileCode (content : String) : String :=
  String.ofList (unifyBreaks content.toList)

def runTask (world : World) : Task → Transcript × Ending
  | .program code => runProgram (Session.start world.limit) code
  | .file name =>
    match world.read name with
    | .ok content => runProgram (Session.start world.limit) (fileCode content)
    | .error e => (⟨"", "Error: " ++ e.message name ++ "\n"⟩, .exit 1)
  | .conversation color =>
    let lines := (inputLines world.input.toList).map String.ofList
    repl version (renderer color) world.farewell (Session.start world.limit) lines

def run (world : World) (arguments : List String) : Transcript × Ending :=
  match Command.ofArguments arguments with
  | .run options =>
    match options.task with
    | .ok task => runTask world task
    | .error cause => (⟨"", ""⟩, .broken cause)
  | .showVersion => (⟨"klisp " ++ version ++ "\n", ""⟩, .exit 0)
  | .showHelp => (⟨help (Settings.logLevel world.environment), ""⟩, .exit 0)
  | .refused => (⟨"", usage⟩, .exit 2)

end Console

end TableLisp

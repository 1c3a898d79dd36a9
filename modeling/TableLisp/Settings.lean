import TableLisp.Text.Numeral
import TableLisp.Text.Upper

/-!
# Settings

What the environment variables of a process decide: the depth limit, the level of the log and the
place of the history file. A number that is not a positive integer counts as unset.
-/

namespace TableLisp

open Text

namespace Settings

/-- The environment variables: the text of each that is set. -/
abbrev Variables := String → Option String

def defaultMaxDepth : Int := 10000

/-- A positive integer from a variable, or the default. -/
def positiveInt (vars : Variables) (name : String) (default : Int) : Int :=
  match (vars name).bind fun text => Numeral.readInteger? (trim text.toList) with
  | some n => if 0 < n then n else default
  | none => default

def maxDepth (vars : Variables) : Int :=
  positiveInt vars "KLISP_MAX_DEPTH" defaultMaxDepth

def logLevel (vars : Variables) : String :=
  upper ((vars "KLISP_LOG_LEVEL").getD "WARNING")

/-! ## Paths -/

/-- The root that a path starts from: two slashes are one of their own, any other number is one. -/
def pathRoot (path : List Char) : String :=
  match path with
  | '/' :: '/' :: '/' :: _ => "/"
  | '/' :: '/' :: _ => "//"
  | '/' :: _ => "/"
  | _ => ""

/-- The names on a path. Empty names and names of one dot lead nowhere. -/
def pathNames (path : String) : List String :=
  (path.splitOn "/").filter fun name => name != "" && name != "."

/-- The path of some names from a root; with neither, it is the current directory. -/
def joinPath (root : String) (names : List String) : String :=
  let path := root ++ "/".intercalate names
  if path.isEmpty then "." else path

/-- A path in its shortest form, with a leading tilde replaced by the home directory. -/
def expandPath (home path : String) : String :=
  let root := pathRoot path.toList
  match root, pathNames path with
  | "", "~" :: names => joinPath (pathRoot home.toList) (pathNames home ++ names)
  | root, names => joinPath root names

def historyPath (vars : Variables) (home : String) : String :=
  match vars "KLISP_HISTORY" with
  | none | some "" => expandPath home "~/.klisp_history"
  | some path => expandPath home path

end Settings

end TableLisp

import TableLisp.Text.Numeral
import TableLisp.Text.Quoted

/-!
# Program files

Where the path of a program file leads. A tree of files has a working directory, from which a path
starts unless it begins with a slash. A path is walked name by name, and a file ends the walk, so
that a path goes on, if only by a slash, after directories alone.

- `FileError`: why a path yields no text, and how that is reported.
- `FileTree.read`: the text of the file that a path leads to.
-/

namespace TableLisp

open Text

/-! ## Failures -/

inductive FileError
  | missing | denied | notDirectory | isDirectory | nameTooLong
  deriving DecidableEq, Repr

namespace FileError

def all : List FileError :=
  [missing, denied, notDirectory, isDirectory, nameTooLong]

/-- The number that a system has for the failure. -/
def number : FileError → Int
  | missing => 2
  | denied => 13
  | notDirectory => 20
  | isDirectory => 21
  | nameTooLong => 36

def description : FileError → String
  | missing => "No such file or directory"
  | denied => "Permission denied"
  | notDirectory => "Not a directory"
  | isDirectory => "Is a directory"
  | nameTooLong => "File name too long"

def message (e : FileError) (path : String) : String :=
  "[Errno " ++ Numeral.text e.number ++ "] " ++ e.description ++ ": " ++ Quoted.encode path

end FileError

/-! ## Trees -/

/-- Files and the working directory. Each file stands under the names that lead to it from the
root, and so does the working directory. -/
structure FileTree where
  directory : List String
  files : List (List String × String)

namespace FileTree

def maxNameBytes : Nat := 255

def maxPathBytes : Nat := 4095

/-- What stands at the end of a path. -/
inductive Place
  | directory (names : List String)
  | file (content : String)

/-- Whether some names lead from the root to a directory: it is one that something lies in, or the
working directory. -/
def hasDirectory (tree : FileTree) (names : List String) : Bool :=
  names.isPrefixOf tree.directory ||
    tree.files.any fun (file, _) => names.isPrefixOf file && names != file

/-- Where a name leads to in a directory. -/
def enter (tree : FileTree) (names : List String) (name : String) : Except FileError Place :=
  if name = "" || name = "." then .ok (.directory names)
  else if name = ".." then .ok (.directory names.dropLast)
  else if maxNameBytes < name.utf8ByteSize then .error .nameTooLong
  else
    let inner := names ++ [name]
    match tree.files.lookup inner with
    | some content => .ok (.file content)
    | none => if tree.hasDirectory inner then .ok (.directory inner) else .error .missing

/-- Where further names lead to from a place. -/
def walk (tree : FileTree) (place : Place) : List String → Except FileError Place
  | [] => .ok place
  | name :: rest =>
    match place with
    | .file _ => .error .notDirectory
    | .directory names =>
      match tree.enter names name with
      | .ok place => tree.walk place rest
      | .error e => .error e

/-- The text of the file that a path leads to. -/
def read (tree : FileTree) (path : String) : Except FileError String :=
  if path.isEmpty then .error .missing
  else if maxPathBytes < path.utf8ByteSize then .error .nameTooLong
  else
    let start := if path.toList.head? = some '/' then [] else tree.directory
    match tree.walk (.directory start) (path.splitOn "/") with
    | .ok (.file content) => .ok content
    | .ok (.directory _) => .error .isDirectory
    | .error e => .error e

end FileTree

end TableLisp

import TableLisp.Editor.Word
import TableLisp.Reader.TokenStream

/-!
# The index of a buffer

What an editor knows about a buffer without running it: the names that its top-level definitions
bind, how many parentheses are left open, and whether a string is. The exact errors come from the
reader (`diagnose`).
-/

namespace TableLisp

open Text

/-! ## Definitions -/

/-- What a definition binds its name to, as far as its first words tell. -/
inductive Definition.Kind
  | function | variable
  deriving DecidableEq, Repr

structure Definition where
  name : String
  kind : Definition.Kind
  position : Position
  deriving DecidableEq, Repr

namespace Definition

def kindOf : List Word → Kind
  | bracket :: head :: _ =>
    if bracket.text = ['('] && head.text = "lambda".toList then .function else .variable
  | _ => .variable

/-- A word that can be a name: neither a mark nor a string. -/
def isName (word : Word) : Bool :=
  match word.text with
  | ['('] | [')'] | ['\''] => false
  | c :: _ => c != '"'
  | [] => true

/-- The definition that the words after an opening parenthesis spell. -/
def ofWords? (buffer : List Char) : List Word → Option Definition
  | keyword :: name :: rest =>
    if keyword.text = "define".toList && isName name then
      some ⟨.ofList name.text, kindOf rest, .inBuffer buffer name.offset⟩
    else none
  | _ => none

/-- Adds a definition; an earlier one of the same name gives its place to it. -/
def put (definition : Definition) : List Definition → List Definition
  | [] => [definition]
  | d :: rest =>
    if d.name = definition.name then definition :: rest else d :: put definition rest

end Definition

/-! ## The index -/

/-- The index of a buffer: its definitions in order of first appearance, opening parentheses less
closing ones, and whether a string is left open. -/
structure Index where
  definitions : List Definition
  balance : Int
  openString : Bool
  deriving DecidableEq, Repr

namespace Index

/-- Counts the parentheses of words and collects the definitions among them. A definition counts
where its parenthesis is the only one open. -/
def scan (buffer : List Char) (balance : Int) (definitions : List Definition) :
    List Word → Int × List Definition
  | [] => (balance, definitions)
  | word :: rest =>
    if word.text = ['('] then
      let found := if balance + 1 = 1 then Definition.ofWords? buffer rest else none
      let definitions := (found.map (·.put definitions)).getD definitions
      scan buffer (balance + 1) definitions rest
    else if word.text = [')'] then scan buffer (balance - 1) definitions rest
    else scan buffer balance definitions rest

/-- Whether a string is open at the end of a line, given whether one is at its start. -/
def openAfterLine (isOpen : Bool) : List Char → Bool
  | [] => isOpen
  | '"' :: rest => openAfterLine (!isOpen) rest
  | ';' :: rest => if isOpen then openAfterLine isOpen rest else isOpen
  | _ :: rest => openAfterLine isOpen rest

def ofBuffer (buffer : List Char) : Index :=
  let (balance, definitions) := scan buffer 0 [] (Word.ofBuffer buffer)
  { definitions, balance, openString := (splitLines buffer).foldl openAfterLine false }

def find? (index : Index) (name : String) : Option Definition :=
  index.definitions.find? (·.name == name)

end Index

/-! ## Diagnosis -/

/-- What the reader reports on a buffer: where and what. -/
structure Finding where
  position : Position
  message : String
  deriving DecidableEq, Repr

/-- Reads a buffer for its error. A numeral that is too long has no place and ends the diagnosis. -/
def diagnose (limit : Int) (buffer : List Char) : Except ReadError (List Finding) :=
  match parse limit buffer with
  | .ok _ => .ok []
  | .error (.parse e) => .ok [⟨e.position, e.fault.message⟩]
  | .error .numeralTooLong => .error .numeralTooLong

end TableLisp

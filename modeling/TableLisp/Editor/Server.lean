import TableLisp.Editor.Cursor
import TableLisp.Editor.Index
import TableLisp.Editor.Signature

/-!
# The language server

A server keeps the buffer of every open document with its index and answers an editor's requests
from them. Opening and changing a document publish its diagnostics; the other requests change
nothing. Nothing is ever evaluated.

- `Server.documents`: the open documents, the view that every request works through.
- `Server.answer`: one request, its response and the server after it.
-/

namespace TableLisp

open Text

/-! ## Protocol types -/

/-- A stretch of one line, from a column to before another. -/
structure Span where
  line : Nat
  start : Nat
  stop : Nat
  deriving DecidableEq, Repr

def Span.ofLength (position : Position) (length : Nat) : Span :=
  ⟨position.line, position.column, position.column + length⟩

inductive Severity
  | error | warning
  deriving DecidableEq, Repr

/-- The number of a severity on the wire. -/
def Severity.code : Severity → Nat
  | .error => 1
  | .warning => 2

structure Diagnostic where
  span : Span
  message : String
  severity : Severity
  deriving DecidableEq, Repr

/-- The name under which diagnostics are published. -/
def Diagnostic.source : String := "klisp-ls"

inductive CompletionKind
  | specialForm | function | variable
  deriving DecidableEq, Repr

/-- The number of a kind of completion on the wire. -/
def CompletionKind.code : CompletionKind → Nat
  | .specialForm => 14
  | .function => 3
  | .variable => 6

/-- An offered name, with the call that it stands for if that is known. -/
structure Completion where
  label : String
  kind : CompletionKind
  detail : Option String
  deriving DecidableEq, Repr

def Definition.Kind.completion : Definition.Kind → CompletionKind
  | .function => .function
  | .variable => .variable

/-- The number of a kind of document symbol on the wire. -/
def Definition.Kind.symbolCode : Definition.Kind → Nat
  | .function => 12
  | .variable => 13

def Definition.Kind.word : Definition.Kind → String
  | .function => "function"
  | .variable => "var"

def Definition.span (definition : Definition) : Span :=
  .ofLength definition.position definition.name.length

/-! ## Documents -/

structure Document where
  buffer : List Char
  index : Index
  deriving Repr

namespace Document

def ofText (text : String) : Document :=
  ⟨text.toList, .ofBuffer text.toList⟩

/-- A warning about a document as a whole. -/
def warning (message : String) : Diagnostic :=
  ⟨.ofLength ⟨0, 0⟩ 1, message, .warning⟩

/-- The diagnostics of a document: the reader's error, then what the index finds amiss. -/
def diagnostics (limit : Int) (document : Document) : Except ReadError (List Diagnostic) := do
  let findings ← diagnose limit document.buffer
  let errors := findings.map fun finding =>
    ⟨.ofLength finding.position 1, finding.message, .error⟩
  let parentheses :=
    if document.index.balance ≠ 0 then [warning "Unmatched parentheses detected"] else []
  let quotes := if document.index.openString then [warning "Unmatched quote detected"] else []
  return errors ++ parentheses ++ quotes

def describe? (document : Document) (name : String) : Option String :=
  match Signature.find? name with
  | some signature => some signature.label
  | none =>
    if name = tableHover.1 then some tableHover.2
    else (document.index.find? name).map fun definition =>
      name ++ ": " ++ definition.kind.word ++ " (defined at " ++
        (definition.position.line + 1).repr ++ ":" ++ (definition.position.column + 1).repr ++ ")"

/-- What a hover says at a place; there is no answer beyond the end of a line. -/
def hover (document : Document) (line character : Nat) : Option (Option String) :=
  (Cursor.wordAt document.buffer line character).map fun hit =>
    hit.word.bind fun word => document.describe? (.ofList word)

def signature? (document : Document) (line character : Nat) : Option Signature :=
  (Cursor.callee? (Cursor.linePrefix document.buffer line character)).bind fun callee =>
    Signature.find? (.ofList callee)

end Document

/-- The names that are offered in every document. -/
def standardCompletions : List Completion :=
  Signature.specialForms.map (fun s => ⟨s.name, .specialForm, some s.label⟩) ++
    Signature.builtins.map (fun s => ⟨s.name, .function, some s.label⟩) ++
    [⟨tableHover.1, .variable, none⟩]

def completions (document : Option Document) : List Completion :=
  standardCompletions ++
    (document.map fun document => document.index.definitions.map fun definition =>
      (⟨definition.name, definition.kind.completion, none⟩ : Completion)).getD []

/-! ## Requests -/

/-- What an editor asks for, about the document of a uri. -/
inductive Server.Request
  /-- A document was opened or changed, and has this text now. -/
  | update (uri text : String)
  | close (uri : String)
  | hover (uri : String) (line character : Nat)
  | completion (uri : String)
  | signature (uri : String) (line character : Nat)
  | symbols (uri : String)
  deriving DecidableEq, Repr

inductive Server.Response
  | published (uri : String) (diagnostics : List Diagnostic)
  | hover (text : Option String)
  | completions (items : List Completion)
  | signature (signature : Option Signature)
  | symbols (definitions : Option (List Definition))
  /-- The document cannot be diagnosed. -/
  | undiagnosed (e : ReadError)
  /-- The place lies beyond the end of its line. -/
  | outsideLine
  deriving DecidableEq, Repr

/-- A server: the open documents by their uri, and the nesting limit of the reader. -/
structure Server where
  documents : List (String × Document)
  limit : Int
  deriving Repr

namespace Server

def start (limit : Int) : Server :=
  ⟨[], limit⟩

def document? (server : Server) (uri : String) : Option Document :=
  server.documents.lookup uri

def remove (server : Server) (uri : String) : Server :=
  { server with documents := server.documents.filter (·.1 != uri) }

/-- Opens a document, in the place of the one that its uri had. -/
def put (server : Server) (uri : String) (document : Document) : Server :=
  { server with documents := (uri, document) :: (server.remove uri).documents }

/-- The response to a request that changes nothing, from the document that it is about. -/
def respond (document : Option Document) : Request → Response
  | .hover _ line character =>
    match document with
    | none => .hover none
    | some document =>
      match document.hover line character with
      | some text => .hover text
      | none => .outsideLine
  | .completion _ => .completions (completions document)
  | .signature _ line character => .signature (document.bind (·.signature? line character))
  | .symbols _ => .symbols (document.map (·.index.definitions))
  | .update uri _ | .close uri => .published uri []

def publish (limit : Int) (uri : String) (document : Document) : Response :=
  match document.diagnostics limit with
  | .ok diagnostics => .published uri diagnostics
  | .error e => .undiagnosed e

def Request.uri : Request → String
  | .update uri _ | .close uri | .hover uri _ _ | .completion uri | .signature uri _ _
  | .symbols uri => uri

def answer (server : Server) (request : Request) : Response × Server :=
  match request with
  | .update uri text =>
    let document := Document.ofText text
    (publish server.limit uri document, server.put uri document)
  | .close uri => (.published uri [], server.remove uri)
  | request => (respond (server.document? request.uri) request, server)

end Server

end TableLisp

import Mathlib.Data.List.Induction
import TableLisp.Editor.Server

/-!
# What a server remembers

Of all that it was asked, a server keeps one text for each open document: that of the last request
that set it (`Server.heldText?`). `Server.document?_answer` says what one request does to the
document of a uri, and `Server.document?_after` follows from it for a whole history. A response
depends on the document of its own uri and on nothing else of the server (`Server.answer_congr`), so
a server that was given that one text, and nothing before, responds alike
(`Server.answers_from_held_text`).
-/

namespace TableLisp.Server

/-! ## Histories -/

/-- The server after some requests. -/
def after (server : Server) (requests : List Request) : Server :=
  requests.foldl (fun server request => (server.answer request).2) server

/-- The responses to some requests, in order. -/
def responses (server : Server) : List Request → List Response
  | [] => []
  | request :: rest => (server.answer request).1 :: (server.answer request).2.responses rest

/-- What a request makes of the text of a document: none if the document is closed, and nothing at
all if the request leaves it as it is. -/
def Request.sets? (uri : String) : Request → Option (Option String)
  | .update uri' text => if uri = uri' then some (some text) else none
  | .close uri' => if uri = uri' then some none else none
  | .hover .. | .completion _ | .signature .. | .symbols _ => none

/-- The text of a document by the last request that set it; none if that closed the document, or if
there was no such request. -/
def heldText? (uri : String) (requests : List Request) : Option String :=
  (requests.reverse.findSome? (Request.sets? uri)).join

/-- A new server that was given the text of one document, or nothing. -/
def holding (limit : Int) (uri : String) : Option String → Server
  | none => start limit
  | some text => (start limit).after [.update uri text]

theorem heldText?_concat (uri : String) (requests : List Request) (request : Request) :
    heldText? uri (requests ++ [request]) =
      (request.sets? uri).getD (heldText? uri requests) := by
  rw [heldText?, List.reverse_concat, List.findSome?_cons]
  cases request.sets? uri <;> rfl

theorem Request.sets?_of_uri_ne {request : Request} {uri : String} (h : uri ≠ request.uri) :
    request.sets? uri = none := by
  cases request with
  | update | close => exact if_neg h
  | hover | completion | signature | symbols => rfl

/-- Requests about other documents do not matter for the text of a document. -/
theorem heldText?_filter (uri : String) (requests : List Request) :
    heldText? uri (requests.filter (·.uri = uri)) = heldText? uri requests := by
  induction requests using List.reverseRecOn with
  | nil => rfl
  | append_singleton requests request ih =>
      rw [heldText?_concat, ← ih, List.filter_append]
      by_cases h : request.uri = uri
      · rw [List.filter_cons_of_pos (by simpa using h), List.filter_nil, heldText?_concat]
      · rw [List.filter_cons_of_neg (by simpa using h), List.filter_nil, List.append_nil,
          Request.sets?_of_uri_ne (Ne.symm h), Option.getD_none]

/-! ## Documents -/

theorem lookup_documents (uri key : String) (document : Document)
    (rest : List (String × Document)) :
    List.lookup uri ((key, document) :: rest) =
      if uri = key then some document else rest.lookup uri := by
  rw [List.lookup_cons]
  by_cases h : uri = key
  · simp [h]
  · simp [h, beq_eq_false_iff_ne.mpr h]

theorem document?_remove (server : Server) (uri other : String) :
    (server.remove uri).document? other =
      if other = uri then none else server.document? other := by
  simp only [remove, document?]
  induction server.documents with
  | nil => simp
  | cons entry documents ih =>
      obtain ⟨key, document⟩ := entry
      rw [lookup_documents]
      by_cases hkey : key = uri
      · rw [List.filter_cons_of_neg (by simpa using hkey), ih, hkey]
        split <;> rfl
      · rw [List.filter_cons_of_pos (by simpa using hkey), lookup_documents, ih]
        by_cases hother : other = key
        · rw [if_pos hother, if_neg (hother ▸ hkey), if_pos hother]
        · rw [if_neg hother, if_neg hother]

theorem document?_put (server : Server) (uri other : String) (document : Document) :
    (server.put uri document).document? other =
      if other = uri then some document else server.document? other := by
  have hput : (server.put uri document).document? other =
      if other = uri then some document else (server.remove uri).document? other :=
    lookup_documents other uri document (server.remove uri).documents
  rw [hput, document?_remove]
  split <;> rfl

/-- A request sets the document of a uri to that of a text, closes it, or leaves it alone. -/
theorem document?_answer (server : Server) (request : Request) (uri : String) :
    (server.answer request).2.document? uri =
      ((request.sets? uri).map (Option.map Document.ofText)).getD (server.document? uri) := by
  cases request with
  | update uri' text =>
      show (server.put uri' (Document.ofText text)).document? uri = _
      rw [document?_put, Request.sets?]
      split <;> rfl
  | close uri' =>
      show (server.remove uri').document? uri = _
      rw [document?_remove, Request.sets?]
      split <;> rfl
  | hover | completion | signature | symbols => rfl

theorem limit_answer (server : Server) (request : Request) :
    (server.answer request).2.limit = server.limit := by
  cases request <;> rfl

theorem after_concat (server : Server) (requests : List Request) (request : Request) :
    server.after (requests ++ [request]) = ((server.after requests).answer request).2 := by
  simp [after]

theorem limit_after (server : Server) (requests : List Request) :
    (server.after requests).limit = server.limit := by
  induction requests using List.reverseRecOn with
  | nil => rfl
  | append_singleton requests request ih => rw [after_concat, limit_answer, ih]

/-- After any history a document is that of the text it holds. -/
theorem document?_after (limit : Int) (requests : List Request) (uri : String) :
    ((start limit).after requests).document? uri =
      (heldText? uri requests).map Document.ofText := by
  induction requests using List.reverseRecOn with
  | nil => rfl
  | append_singleton requests request ih =>
      rw [after_concat, document?_answer, heldText?_concat, ih]
      cases request.sets? uri <;> rfl

theorem document?_holding (limit : Int) (uri : String) (text : Option String) :
    (holding limit uri text).document? uri = text.map Document.ofText := by
  cases text with
  | none => rfl
  | some text => simp [holding, document?_after, heldText?, Request.sets?]

theorem limit_holding (limit : Int) (uri : String) (text : Option String) :
    (holding limit uri text).limit = limit := by
  cases text with
  | none => rfl
  | some text => exact limit_after (start limit) [.update uri text]

/-! ## Responses -/

/-- Servers that agree on the document of a request respond alike to it. -/
theorem answer_congr {server server' : Server} {request : Request}
    (hlimit : server.limit = server'.limit)
    (hdocument : server.document? request.uri = server'.document? request.uri) :
    (server.answer request).1 = (server'.answer request).1 := by
  cases request with
  | update uri text => exact congrArg (publish · uri (Document.ofText text)) hlimit
  | close uri => rfl
  | hover | completion | signature | symbols => simp only [answer, hdocument]

theorem getElem?_responses (server : Server) (before : List Request) (request : Request)
    (later : List Request) :
    (server.responses (before ++ request :: later))[before.length]? =
      some ((server.after before).answer request).1 := by
  induction before generalizing server with
  | nil => rfl
  | cons first before ih => exact ih (server.answer first).2

/-- **What a server remembers.** In every sequence of requests the response to each of them is that
of a new server which was given, if anything, the one text that the document of the request holds:
the text of its last update, unless it was closed since. It is the response that it would be without
the requests about other documents. An update is answered with the diagnostics of its own text,
whatever was before, and a closed document has no diagnostics. -/
theorem answers_from_held_text (limit : Int) (before : List Request) (request : Request)
    (later : List Request) :
    let uri := request.uri
    let held := heldText? uri before
    let response := ((holding limit uri held).answer request).1
    ((start limit).responses (before ++ request :: later))[before.length]? = some response ∧
    (((start limit).after (before.filter (·.uri = uri))).answer request).1 = response ∧
    (∀ text, request = .update uri text → response = publish limit uri (.ofText text)) ∧
    (request = .close uri → response = .published uri []) := by
  intro uri held response
  have hanswer {requests : List Request} (h : heldText? uri requests = held) :
      (((start limit).after requests).answer request).1 = response := by
    refine answer_congr ?_ ?_
    · rw [limit_after, limit_holding]
      rfl
    · rw [document?_after, document?_holding, h]
  refine ⟨?_, hanswer (heldText?_filter uri before), fun text h => ?_, fun h => ?_⟩
  · rw [getElem?_responses, hanswer rfl]
  · simp only [response]
    rw [h]
    show publish (holding limit uri held).limit uri (.ofText text) = _
    rw [limit_holding]
  · simp only [response]
    rw [h]
    rfl

end TableLisp.Server

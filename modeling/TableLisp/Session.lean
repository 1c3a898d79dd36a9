import TableLisp.Eval.Evaluator
import TableLisp.Reader.TokenStream

/-!
# Sessions

A session runs programs one after the other over one global frame, which starts with the primitives
and keeps what the programs define. A program is read as a whole before any of it is evaluated, so
one that cannot be read changes nothing; an evaluation that fails keeps what it had done.

Several sessions may share a store. Each has its own global frame, and no program can reach a
frame of another session except through a value that was handed over.
-/

namespace TableLisp

/-- Why a program yields no value. -/
inductive RunError
  | read (e : ReadError)
  | eval (e : EvalError)
  deriving DecidableEq, Repr

/-- A session: the state and the number of the global frame. -/
structure Session where
  state : State
  global : FrameId
  deriving Repr

def State.initial (limit : Int) : State :=
  ⟨.empty, .ofLimit limit⟩

def State.newSession (s : State) : Session :=
  let (global, store) := s.store.newGlobal
  ⟨{ s with store }, global⟩

namespace Session

def start (limit : Int) : Session :=
  (State.initial limit).newSession

def define (session : Session) (name : String) (v : Value) : Session :=
  { session with
    state := { session.state with store := session.state.store.define session.global name v } }

def defineAll (session : Session) (bindings : List (String × Value)) : Session :=
  bindings.foldl (fun session (name, v) => session.define name v) session

def binds (session : Session) (name : String) : Bool :=
  session.state.store.binds session.global name

def withLimit (session : Session) (limit : Int) : Session :=
  { session with
    state := { session.state with guard := { session.state.guard with limit } } }

/-- Evaluates forms in the global frame, in order, and yields the last value. -/
def evalForms (session : Session) (forms : List Form) : Except EvalError Value × Session :=
  match evalBody evaluate session.global .nil forms session.state with
  | .ok v state => (.ok v, { session with state })
  | .error e state => (.error e, { session with state })

/-- Reads and evaluates a program, and yields the value of its last form. -/
def run (session : Session) (code : String) : Except RunError Value × Session :=
  match parse session.state.guard.limit code.toList with
  | .error e => (.error (.read e), session)
  | .ok forms =>
    let (outcome, session) := session.evalForms forms
    (outcome.mapError .eval, session)

end Session

end TableLisp

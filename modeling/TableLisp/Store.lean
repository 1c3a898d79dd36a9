import TableLisp.Form

/-!
# The store

Everything that outlives the evaluation of one form. A *frame* is one scope: its bindings, in the
order of their definition, and the frame around it. The store holds every frame that was ever made
and the code of every closure; both are named by their number and never removed, so a name stays
good. A frame lies inside an older one, hence the frames outward from it are finitely many
(`Store.scope`).

- `Frame.get?_define`: what a frame binds after a definition.
- `Store.lookup?`: the innermost binding of a name, seen from a frame.
-/

namespace TableLisp

/-! ## Frames -/

abbrev FrameId := Nat

/-- One scope: its bindings in order of definition, and the scope around it. -/
structure Frame where
  bindings : List (String × Value)
  outer : Option FrameId
  deriving Repr

namespace Frame

/-- Binds a name anew; an existing binding is overwritten in its place. -/
def put (name : String) (v : Value) : List (String × Value) → List (String × Value)
  | [] => [(name, v)]
  | (key, old) :: rest => if key = name then (name, v) :: rest else (key, old) :: put name v rest

def define (frame : Frame) (name : String) (v : Value) : Frame :=
  { frame with bindings := put name v frame.bindings }

def get? (frame : Frame) (name : String) : Option Value :=
  frame.bindings.lookup name

theorem lookup_cons_eq (key k : String) (v : Value) (rest : List (String × Value)) :
    List.lookup key ((k, v) :: rest) = if key = k then some v else rest.lookup key := by
  rw [List.lookup_cons]
  by_cases h : key = k
  · simp [h]
  · simp [h, beq_eq_false_iff_ne.mpr h]

theorem lookup_put (name key : String) (v : Value) (bindings : List (String × Value)) :
    (put name v bindings).lookup key = if key = name then some v else bindings.lookup key := by
  induction bindings with
  | nil => simp [put, lookup_cons_eq]
  | cons b rest ih =>
    obtain ⟨k, old⟩ := b
    by_cases hk : k = name <;> by_cases h : key = name <;> by_cases hkey : key = k <;>
      simp_all [put, lookup_cons_eq]

/-- After a definition the name has its new value, and every other name its old one. -/
theorem get?_define (frame : Frame) (name key : String) (v : Value) :
    (frame.define name v).get? key = if key = name then some v else frame.get? key :=
  lookup_put ..

end Frame

/-! ## The store -/

/-- The code of a closure: the forms of its body and the frame that it was made in. -/
structure Code where
  body : List Form
  frame : FrameId
  deriving Repr

/-- All frames, the code of all closures, and the number of primitives made so far. -/
structure Store where
  frames : Array Frame
  codes : Array Code
  primitives : Nat
  deriving Repr

namespace Store

def empty : Store :=
  ⟨#[], #[], 0⟩

/-! ### Making things -/

def newFrame (s : Store) (bindings : List (String × Value)) (outer : Option FrameId) :
    FrameId × Store :=
  (s.frames.size, { s with frames := s.frames.push ⟨bindings, outer⟩ })

def newClosure (s : Store) (formals : List String) (code : Code) : Value × Store :=
  (.closure s.codes.size formals, { s with codes := s.codes.push code })

/-- Makes a primitive that equals no other. -/
def newPrimitive (s : Store) (op : Builtin) : Value × Store :=
  (.primitive s.primitives op, { s with primitives := s.primitives + 1 })

def define (s : Store) (id : FrameId) (name : String) (v : Value) : Store :=
  { s with frames := s.frames.modify id (·.define name v) }

/-- Makes every primitive and defines it in a frame under its name. -/
def definePrimitives (s : Store) (id : FrameId) : Store :=
  Builtin.all.foldl (fun s op =>
    let (v, s) := s.newPrimitive op
    s.define id op.name v) s

/-- Makes a frame that binds the primitives and nothing else. -/
def newGlobal (s : Store) : FrameId × Store :=
  let (id, s) := s.newFrame [] none
  (id, s.definePrimitives id)

/-! ### Finding bindings -/

/-- The frames from a frame outward, the frame itself first. -/
def scope (s : Store) (id : FrameId) : List FrameId :=
  match s.frames[id]? with
  | none => []
  | some frame =>
    match frame.outer with
    | none => [id]
    | some outer => if outer < id then id :: scope s outer else [id]
termination_by id

def get? (s : Store) (id : FrameId) (name : String) : Option Value :=
  s.frames[id]?.bind (·.get? name)

/-- The value of a name as seen from a frame: that of the innermost frame that binds it. -/
def lookup? (s : Store) (id : FrameId) (name : String) : Option Value :=
  (s.scope id).findSome? (s.get? · name)

/-- Whether a name is bound as seen from a frame. -/
def binds (s : Store) (id : FrameId) (name : String) : Bool :=
  (s.lookup? id name).isSome

/-- How many frames outward the innermost binding of a name lies. -/
def hops? (s : Store) (id : FrameId) (name : String) : Option Nat :=
  (s.scope id).findIdx? fun frame => (s.get? frame name).isSome

/-! ### Listings -/

/-- The bindings of a frame between braces, if every value can be written. -/
def listFrame? (frame : Frame) : Option String :=
  let bindings := frame.bindings.map fun (name, v) => name ++ ": " ++ v.inspect
  if frame.bindings.all (·.2.isWritable) then
    some ("\x7b" ++ ", ".intercalate bindings ++ "\x7d")
  else none

/-- The listing of one frame, with a mark when another lies around it. -/
def listInner? (s : Store) (id : FrameId) : Option String :=
  match s.frames[id]? with
  | none => some ""
  | some frame => (listFrame? frame).map (· ++ if frame.outer.isSome then " -> ..." else "")

/-- The listing of a frame and of all frames around it. -/
def listScope? (s : Store) (id : FrameId) : Option String := do
  let listings ← ((s.scope id).filterMap (s.frames[·]?)).mapM listFrame?
  return "<Environment chain: " ++ " -> ".intercalate listings ++ ">"

end Store

end TableLisp

/-!
# Values

What a program computes with. Values are immutable trees over six kinds of atoms; a list is a chain
of pairs that ends in `nil`. A procedure carries its identity: a closure the number of its code in
the store, a primitive a number of its own, so that a procedure equals itself and no other, even one
that does the same.

- `Value.isEqual`: the language's equality, with `Value.isEqual_iff`.
- `Value.chain`, `Value.elements`, `Value.terminal`: chains of pairs and what they end in.
-/

namespace TableLisp

/-! ## Primitives -/

inductive Builtin
  | cons | car | cdr | isNull | equal | assoc | groupBy
  deriving DecidableEq, Repr

namespace Builtin

/-- The name under which a program finds a primitive. -/
def name : Builtin → String
  | cons => "cons"
  | car => "car"
  | cdr => "cdr"
  | isNull => "null?"
  | equal => "equal?"
  | assoc => "assoc"
  | groupBy => "group-by"

def arity : Builtin → Nat
  | car | cdr | isNull => 1
  | cons | equal | assoc | groupBy => 2

/-- All primitives, in the order in which a session defines them. -/
def all : List Builtin :=
  [cons, car, cdr, isNull, equal, assoc, groupBy]

def ofName? (name : String) : Option Builtin :=
  all.find? fun op => op.name == name

theorem mem_all (op : Builtin) : op ∈ all := by
  cases op <;> decide

end Builtin

/-! ## Values -/

inductive Value
  | nil
  | bool (b : Bool)
  | int (n : Int)
  | str (text : String)
  | sym (name : String)
  | pair (head tail : Value)
  | closure (id : Nat) (formals : List String)
  | primitive (id : Nat) (op : Builtin)
  deriving Inhabited, Repr

namespace Value

inductive Kind
  | nil | bool | int | str | sym | pair | closure | primitive
  deriving DecidableEq, Repr

def kind : Value → Kind
  | .nil => .nil
  | .bool _ => .bool
  | .int _ => .int
  | .str _ => .str
  | .sym _ => .sym
  | .pair _ _ => .pair
  | .closure _ _ => .closure
  | .primitive _ _ => .primitive

/-- Closures and primitives can be applied. -/
def isProcedure : Value → Bool
  | .closure _ _ | .primitive _ _ => true
  | _ => false

/-- Everything counts as true except false and the empty list. -/
def isTruthy : Value → Bool
  | .bool false | .nil => false
  | _ => true

/-! ## Equality

Two values are compared along their chains of pairs, head by head, and atoms by their kind and by
what they hold. Large values share their parts, so a part that is the same object on both sides is
not walked again. -/

/-- Whether two atoms are of one kind and hold the same. A procedure is known by its number, with
which the rest of it goes, and a pair is no atom. -/
def sameAtom : Value → Value → Bool
  | .nil, .nil => true
  | .bool x, .bool y => x == y
  | .int x, .int y => x == y
  | .str x, .str y => x == y
  | .sym x, .sym y => x == y
  | .closure i x, .closure j y => i == j && x == y
  | .primitive i x, .primitive j y => i == j && x == y
  | _, _ => false

/-- Whether two values are the same part by part. -/
def sameParts : Value → Value → Bool
  | .pair head tail, .pair head' tail' =>
    if sameParts head head' then sameParts tail tail' else false
  | a, b => sameAtom a b

theorem sameAtom_iff {a b : Value} : sameAtom a b = true ↔ a = b ∧ a.kind ≠ .pair := by
  cases a <;> cases b <;> simp [sameAtom, kind]

theorem sameParts_iff {a b : Value} : sameParts a b = true ↔ a = b := by
  fun_induction sameParts a b with
  | case1 head tail head' tail' hhead ihhead ihtail => simp [ihtail, ihhead.mp hhead]
  | case2 head tail head' tail' hhead ihhead => simp [← ihhead, hhead]
  | case3 a b hpair =>
    rw [sameAtom_iff, and_iff_left_iff_imp]
    rintro rfl hkind
    cases a with
    | pair head tail => exact hpair head tail head tail rfl rfl
    | _ => cases hkind

theorem sameParts_of_atom {a b : Value} (h : ¬ (a.kind = .pair ∧ b.kind = .pair)) :
    sameParts a b = sameAtom a b := by
  rw [sameParts]
  rintro head tail head' tail' rfl rfl
  exact h ⟨rfl, rfl⟩

/-- Compares two values unless they are one object. Such values are the same, so the outcome is what
the comparison would come to. -/
@[inline] def unlessShared (a b : Value) (parts : Unit → { same : Bool // same = sameParts a b }) :
    { same : Bool // same = sameParts a b } :=
  ⟨withPtrEq a b (fun _ => (parts ()).1) fun h => (parts ()).2.trans (sameParts_iff.mpr h),
    (parts ()).2⟩

/-- Compares two values part by part, passing over the parts that they share. -/
def compareParts (a b : Value) : { same : Bool // same = sameParts a b } :=
  unlessShared a b fun _ =>
    if hpair : a.kind = .pair ∧ b.kind = .pair then
      match a, b, hpair with
      | .pair head tail, .pair head' tail', _ =>
        ⟨if (compareParts head head').1 then (compareParts tail tail').1 else false, by
          rw [(compareParts head head').2, (compareParts tail tail').2, sameParts]⟩
    else ⟨sameAtom a b, (sameParts_of_atom hpair).symm⟩

def isEqual (a b : Value) : Bool :=
  (compareParts a b).1

theorem isEqual_eq_sameParts (a b : Value) : a.isEqual b = sameParts a b :=
  (compareParts a b).2

theorem isEqual_iff {a b : Value} : isEqual a b = true ↔ a = b := by
  rw [isEqual_eq_sameParts, sameParts_iff]

instance : DecidableEq Value := fun _ _ => decidable_of_iff _ sameParts_iff

/-! ## Chains of pairs -/

/-- The chain of pairs over some heads that ends in `tail`. -/
def chain (heads : List Value) (tail : Value) : Value :=
  heads.foldr .pair tail

def ofList (elements : List Value) : Value :=
  chain elements .nil

def elements : Value → List Value
  | .pair head tail => head :: elements tail
  | _ => []

/-- What a chain of pairs ends in: the first tail that is no pair. -/
def terminal : Value → Value
  | .pair _ tail => terminal tail
  | v => v

/-- A list: a chain of pairs that ends in `nil`. -/
def isProper (v : Value) : Bool :=
  v.terminal matches .nil

def toList? (v : Value) : Option (List Value) :=
  if v.isProper then some v.elements else none

theorem elements_chain (heads : List Value) (tail : Value) :
    (chain heads tail).elements = heads ++ tail.elements := by
  induction heads with
  | nil => rfl
  | cons head heads ih => simpa [chain, elements] using ih

theorem terminal_chain (heads : List Value) (tail : Value) :
    (chain heads tail).terminal = tail.terminal := by
  induction heads with
  | nil => rfl
  | cons head heads ih => simpa [chain, terminal] using ih

/-- A value is the chain of its elements over its terminal. -/
theorem chain_elements (v : Value) : chain v.elements v.terminal = v := by
  induction v with
  | pair head tail _ ih => simpa [chain, elements, terminal] using ih
  | _ => rfl

theorem elements_ofList (heads : List Value) : (ofList heads).elements = heads := by
  simp [ofList, elements_chain, elements]

theorem ofList_elements {v : Value} (h : v.isProper = true) : ofList v.elements = v := by
  have hterminal : v.terminal = .nil := by
    unfold isProper at h
    split at h
    · assumption
    · cases h
  rw [ofList, ← hterminal, chain_elements]

theorem isProper_ofList (heads : List Value) : (ofList heads).isProper = true := by
  simp [ofList, isProper, terminal_chain, terminal]

theorem toList?_ofList (heads : List Value) : (ofList heads).toList? = some heads := by
  rw [toList?, isProper_ofList, elements_ofList, if_pos rfl]

end Value

end TableLisp

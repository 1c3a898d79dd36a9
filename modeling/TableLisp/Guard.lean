/-!
# The depth guard

A counter of the evaluations that are under way, with a limit. Entering one more is refused at the
limit, so a program that recurses without end fails instead of exhausting the machine.
`Guard.room` is how many evaluations can still be nested.
-/

namespace TableLisp

/-- The depth of evaluation and its limit. -/
structure Guard where
  depth : Int
  limit : Int
  deriving DecidableEq, Repr

namespace Guard

def ofLimit (limit : Int) : Guard :=
  ⟨0, limit⟩

/-- Counts one more evaluation, unless the limit is reached. -/
def enter? (g : Guard) : Option Guard :=
  if g.limit ≤ g.depth then none else some { g with depth := g.depth + 1 }

def leave (g : Guard) : Guard :=
  { g with depth := g.depth - 1 }

def reset (g : Guard) : Guard :=
  { g with depth := 0 }

/-- How many evaluations can still be nested. -/
def room (g : Guard) : Nat :=
  (g.limit - g.depth).toNat

theorem leave_of_enter? {g g' : Guard} (h : g.enter? = some g') : g'.leave = g := by
  unfold enter? at h
  split at h
  · cases h
  · cases h
    simp [leave]

theorem room_of_enter? {g h : Guard} (henter : g.enter? = some h) : g.room = h.room + 1 := by
  unfold enter? at henter
  split at henter
  · cases henter
  · cases henter
    simp only [room]
    omega

/-- Entering leaves the limit as it is and stays within it. -/
theorem depth_le_of_enter? {g h : Guard} (henter : g.enter? = some h) :
    h.depth ≤ h.limit ∧ h.limit = g.limit := by
  unfold enter? at henter
  split at henter
  · cases henter
  · cases henter
    refine ⟨?_, rfl⟩
    dsimp only
    omega

theorem enter?_eq_none_iff {g : Guard} : g.enter? = none ↔ g.room = 0 := by
  unfold enter? room
  split <;> simp <;> omega

end Guard

end TableLisp

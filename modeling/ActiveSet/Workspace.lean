import ActiveSet.Problem
import ActiveSet.Fault
/-
  The working state of a solve

  A workspace keeps the active constraints in slots: their names, their dual
  values, and two matrices that describe them. `basis` is a square `J` with
  `J Jᵀ` the inverse of the quadratic term; `triangle` holds in its leading
  block, upper triangular and as large as the number of active constraints,
  the images `Jᵀ n` of their normals. One slot past the active ones is kept for
  the constraint that is being added, so there is one slot more than there are
  constraints.

  `save` copies what an iteration may have to undo, and `restore` undoes it.
-/

namespace ActiveSet

/-- The name of an active constraint: its kind and its position among those of its kind. -/
inductive Label where
  | equality (index : Nat)
  | inequality (index : Nat)
  deriving DecidableEq

namespace Label

/-- The name as one number: equalities count down from -1, inequalities up from 0. -/
def code : Label → Int
  | equality i => .negSucc i
  | inequality i => .ofNat i

/-- The name that a number stands for. -/
def ofCode : Int → Label
  | .negSucc i => equality i
  | .ofNat i => inequality i

/-- The entry that the name selects among `count` flags; the number of an equality counts from
the end. -/
def position? (label : Label) (count : Nat) : Option (Fin count) :=
  match label with
  | inequality i => if h : i < count then some ⟨i, h⟩ else none
  | equality i => if h : i < count then some ⟨count - (i + 1), by omega⟩ else none

theorem ofCode_code (l : Label) : ofCode l.code = l := by cases l <;> rfl

end Label

/-- The part of a workspace that can be restored, with the point and value it belongs to. -/
structure Snapshot (α : Type) (n slots : Nat) where
  count : Nat
  pivotScale : α
  value : α
  point : Vector α n
  basis : Mat α n n
  triangle : Mat α n n
  duals : Vector α (slots + 1)
  active : Vector Label (slots + 1)

/-- The buffers of a solve in `n` variables with room for `slots` constraints. -/
structure Workspace (α : Type) (n slots : Nat) where
  /-- The number of active constraints. -/
  count : Nat
  /-- The greatest diagonal entry of `triangle` so far, at least one. -/
  pivotScale : α
  basis : Mat α n n
  triangle : Mat α n n
  /-- The image `Jᵀ n` of the normal in hand. -/
  image : Vector α n
  /-- The direction in which the point moves. -/
  primal : Vector α n
  duals : Vector α (slots + 1)
  active : Vector Label (slots + 1)
  slack : Vector α slots
  saved : Snapshot α n slots

namespace Workspace

variable {α : Type} [Scalar α] {n slots : Nat}

/-- A workspace in which nothing is active and every buffer is zero. -/
def blank (n slots : Nat) : Workspace α n slots where
  count := 0
  pivotScale := 1
  basis := Mat.zero n n
  triangle := Mat.zero n n
  image := Vec.zero n
  primal := Vec.zero n
  duals := Vec.zero (slots + 1)
  active := Vector.replicate (slots + 1) (.inequality 0)
  slack := Vec.zero slots
  saved :=
    { count := 0
      pivotScale := 1
      value := 0
      point := Vec.zero n
      basis := Mat.zero n n
      triangle := Mat.zero n n
      duals := Vec.zero (slots + 1)
      active := Vector.replicate (slots + 1) (.inequality 0) }

/-- Forgets the active constraints. The basis, the directions, the slacks and the saved copies
stay. -/
def reset (ws : Workspace α n slots) : Workspace α n slots :=
  { ws with
    count := 0
    pivotScale := 1
    triangle := Mat.zero n n
    duals := Vec.zero (slots + 1)
    active := Vector.replicate (slots + 1) (.inequality 0) }

/-- Copies the matrices, the dual values and the names. -/
def saveBuffers (ws : Workspace α n slots) : Workspace α n slots :=
  { ws with
    saved :=
      { ws.saved with
        basis := ws.basis
        triangle := ws.triangle
        duals := ws.duals
        active := ws.active } }

/-- Copies what an iteration may undo. -/
def save (ws : Workspace α n slots) (point : Vector α n) (value : α) : Workspace α n slots :=
  let ws := ws.saveBuffers
  { ws with
    saved :=
      { ws.saved with
        count := ws.count
        pivotScale := ws.pivotScale
        value
        point } }

/-- Puts back what `save` copied; the point and its value are in the saved copy. -/
def restore (ws : Workspace α n slots) : Workspace α n slots :=
  { ws with
    count := ws.saved.count
    pivotScale := ws.saved.pivotScale
    basis := ws.saved.basis
    triangle := ws.saved.triangle
    duals := ws.saved.duals
    active := ws.saved.active }

/-- The name in a slot. -/
def label (ws : Workspace α n slots) (k : Nat) : Label :=
  if h : k < slots + 1 then ws.active.get ⟨k, h⟩ else .inequality 0

/-- Writes the first free slot. -/
def place (ws : Workspace α n slots) (label : Label) (dual : α) :
    Except Fault (Workspace α n slots) :=
  if h : ws.count < slots + 1 then
    .ok { ws with
      active := Vec.set ws.active ⟨ws.count, h⟩ label
      duals := Vec.set ws.duals ⟨ws.count, h⟩ dual }
  else .error .indexOutOfRange

/-- The names of the active constraints from a slot on. -/
def labelsFrom (ws : Workspace α n slots) (first : Nat) : List Label :=
  (ws.active.toList.take ws.count).drop first

/-- The active constraints with their dual values, in the order of their slots. -/
def members (ws : Workspace α n slots) : List (Label × α) :=
  (ws.active.toList.zip ws.duals.toList).take ws.count

/-- Moves the dual values of the active constraints against a direction. -/
def relax (ws : Workspace α n slots) (step : α) (direction : Vector α ws.count) :
    Workspace α n slots :=
  { ws with
    duals := Vector.ofFn fun k =>
      if h : k.val < ws.count then ws.duals.get k - step * direction.get ⟨k, h⟩
      else ws.duals.get k }

/-- Raises the dual value of the constraint that is being added. -/
def raise (ws : Workspace α n slots) (step : α) : Workspace α n slots :=
  { ws with
    duals := Vector.ofFn fun k =>
      if k.val = ws.count then ws.duals.get k + step else ws.duals.get k }

/-- Writes the slacks of the first `m` constraints. -/
def keepSlack {m : Nat} (ws : Workspace α n slots) (slack : Vector α m) : Workspace α n slots :=
  { ws with
    slack := Vector.ofFn fun k =>
      if h : k.val < m then slack.get ⟨k, h⟩ else ws.slack.get k }

end Workspace

end ActiveSet

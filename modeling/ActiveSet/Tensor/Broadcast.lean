import ActiveSet.Tensor
/-
  Arrays of any rank, entry by entry

  `tabulate` builds an array from its entries, `get` reads one. Two arrays
  combine entry by entry after their shapes have been aligned at the last
  axis: axes of one length pair up, an axis of length one repeats, and a
  missing axis counts as one of length one.
-/

namespace ActiveSet

namespace Tensor

variable {α : Type}

/-- All positions of an array, the last axis moving fastest. -/
def positions : List Nat → List (List Nat)
  | [] => [[]]
  | n :: shape => (List.range n).flatMap fun i => (positions shape).map (i :: ·)

theorem length_positions (shape : List Nat) : (positions shape).length = entryCount shape := by
  induction shape with
  | nil => rfl
  | cons n shape ih =>
    rw [positions, length_flatMap_of_forall fun i _ => (List.length_map _).trans ih]
    simp [entryCount]

/-- The array with the given entries. -/
def tabulate (shape : List Nat) (f : List Nat → α) : Tensor α where
  shape
  entries := (positions shape).map f
  length_entries := by rw [List.length_map, length_positions]

/-- The place of a position in the order of entries. -/
def offset (shape position : List Nat) : Nat :=
  (shape.zip position).foldl (fun k (n, i) => k * n + i) 0

/-- The entry at a position; zero where there is none. -/
def get [Zero α] (t : Tensor α) (position : List Nat) : α :=
  (t.entries[offset t.shape position]?).getD 0

/-- The array with its axes in reverse order. -/
def transpose [Zero α] (t : Tensor α) : Tensor α :=
  tabulate t.shape.reverse fun position => t.get position.reverse

/-- The common length of two paired axes. -/
def pairAxis (a b : Nat) : Option Nat :=
  if a = b then some a else if a = 1 then some b else if b = 1 then some a else none

/-- The common shape of two shapes, both given from the last axis on. -/
def pairShapes : List Nat → List Nat → Option (List Nat)
  | [], s => some s
  | s, [] => some s
  | a :: s, b :: t => do return (← pairAxis a b) :: (← pairShapes s t)

/-- The shape to which two shapes align. -/
def commonShape? (s t : List Nat) : Option (List Nat) :=
  (pairShapes s.reverse t.reverse).map List.reverse

/-- The position in an array of the given shape that a position of the aligned array stands
for. -/
def ownPosition (shape position : List Nat) : List Nat :=
  shape.zipWith (fun n i => if n = 1 then 0 else i)
    (position.drop (position.length - shape.length))

/-- The entry that stands at a position of the aligned array. -/
def getAligned [Zero α] (t : Tensor α) (position : List Nat) : α :=
  t.get (ownPosition t.shape position)

/-- The array with its entries repeated to fill a shape. -/
def spread [Zero α] (t : Tensor α) (shape : List Nat) : Except Fault (Tensor α) :=
  if commonShape? t.shape shape = some shape then .ok (tabulate shape t.getAligned)
  else .error .shapeMismatch

/-- A shape without its leading axes of length one, as far as there are more axes than `rank`. -/
def dropUnitAxes (rank : Nat) : List Nat → List Nat
  | [] => []
  | n :: shape => if n = 1 ∧ rank ≤ shape.length then dropUnitAxes rank shape else n :: shape

/-- The entries in the same order under another shape. -/
def reshape (t : Tensor α) (shape : List Nat) : Except Fault (Tensor α) :=
  if h : t.size = entryCount shape then .ok ⟨shape, t.entries, h⟩ else .error .shapeMismatch

theorem shape_reshape {t t' : Tensor α} {shape : List Nat} (h : t.reshape shape = .ok t') :
    t'.shape = shape := by
  unfold reshape at h
  split at h <;> cases h
  rfl

/-- What an array of the given shape holds after the array has been written to it: the entries
are repeated, and leading axes of length one that it has no place for are left out. -/
def written [Zero α] (t : Tensor α) (shape : List Nat) : Except Fault (Tensor α) := do
  (← t.reshape (dropUnitAxes shape.length t.shape)).spread shape

/-- Two arrays combined entry by entry. -/
def combine [Zero α] (f : α → α → α) (s t : Tensor α) : Except Fault (Tensor α) :=
  match commonShape? s.shape t.shape with
  | none => .error .shapeMismatch
  | some shape =>
    .ok (tabulate shape fun position => f (s.getAligned position) (t.getAligned position))

/-- Half the sum of an array and its transpose. -/
def symmetrized [Scalar α] (t : Tensor α) : Except Fault (Tensor α) :=
  combine (fun x y => Scalar.half * (x + y)) t t.transpose

end Tensor

end ActiveSet

import ActiveSet.Problem
import ActiveSet.Tensor
/-
  Regions of feasible points

  A region is a box, a set of linear inequalities or a set of linear
  equalities. `Region.constraints` lists what it demands of a point. A bound
  of a box that is infinite or a NaN demands nothing, and a box that is
  bounded below only has no upper side at all.
-/

namespace ActiveSet

/-- A set of points of one dimension. -/
inductive Region (α : Type) where
  /-- The points between two bounds, coordinate by coordinate. -/
  | interval {n : Nat} (lower : Vector α n) (upper : Option (Vector α n))
  /-- The points that meet the bound of every constraint. -/
  | inequalities {n : Nat} (constraints : List (Constraint α n))
  /-- The points that attain the bound of every constraint. -/
  | equalities {n : Nat} (constraints : List (Constraint α n))

namespace Region

variable {α : Type} [Scalar α]

/-- The dimension of the region's points. -/
def dimension : Region α → Nat
  | interval (n := n) .. => n
  | inequalities (n := n) .. => n
  | equalities (n := n) .. => n

/-- The kind of the region's constraints. -/
def kind : Region α → ConstraintKind
  | interval .. | inequalities .. => .inequality
  | equalities .. => .equality

/-- The region's kind by name. -/
def typeName : Region α → String
  | interval .. => "Interval"
  | inequalities .. => "LinearInequality"
  | equalities .. => "LinearEquality"

/-- The constraint that one coordinate is at least a number; none unless that is finite. -/
def lowerSide {n : Nat} (lower : Vector α n) (j : Fin n) : List (Constraint α n) :=
  if Scalar.isFinite (lower.get j) then [⟨Vec.unit j, lower.get j⟩] else []

/-- The constraint that one coordinate is at most a number; none unless that is finite. -/
def upperSide {n : Nat} (upper : Vector α n) (j : Fin n) : List (Constraint α n) :=
  if Scalar.isFinite (upper.get j) then
    [⟨Vector.ofFn fun i => if i = j then -1 else 0, -(upper.get j)⟩]
  else []

/-- The constraints of a box, by coordinate, the lower side before the upper. -/
def sides {n : Nat} (lower : Vector α n) (upper : Option (Vector α n)) : List (Constraint α n) :=
  (List.finRange n).flatMap fun j =>
    lowerSide lower j ++ (match upper with | some u => upperSide u j | none => [])

/-- What the region demands of a point. -/
def constraints : (r : Region α) → List (Constraint α r.dimension)
  | interval lower upper => sides lower upper
  | inequalities cs => cs
  | equalities cs => cs

/-- Whether a lower bound exceeds the upper bound of its coordinate, both being finite. -/
def crossed {n : Nat} (lower upper : Vector α n) : Bool :=
  (List.finRange n).any fun j =>
    Scalar.isFinite (lower.get j) && Scalar.isFinite (upper.get j) &&
      Scalar.lt (upper.get j) (lower.get j)

/-- The box between two lists of bounds, whatever their shapes. -/
def between (lower upper : Nested α) : Except Fault (Region α) := do
  let lower ← lower.tensor
  let upper ← upper.tensor
  match upper.flat? lower.size with
  | none => throw .boundLengths
  | some bounds =>
    if crossed lower.flat bounds then throw .boundsCrossed
    return interval lower.flat (some bounds)

/-- The points above a list of bounds. -/
def above (lower : Nested α) : Except Fault (Region α) := do
  return interval (← lower.tensor).flat none

/-- The region of linear constraints of one kind, with the normals as columns; a list of
numbers is a single column. -/
def linear (kind : ConstraintKind) (matrix vector : Nested α) : Except Fault (Region α) := do
  let matrix ← matrix.tensor
  let (n, k) ← match matrix.shape with
    | [n] => pure (n, 1)
    | [n, k] => pure (n, k)
    | _ => throw (.regionRank kind)
  let bounds ← vector.tensor
  if bounds.size ≠ k then throw (.regionVectorLength kind)
  let constraints := (matrix.columns n k).zipWith Constraint.mk bounds.entries
  match kind with
  | .inequality => return inequalities constraints
  | .equality => return equalities constraints

end Region

end ActiveSet

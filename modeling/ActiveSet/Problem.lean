import ActiveSet.Linear.Basic
/-
  Strictly convex quadratic programs

  A problem asks for the least value of `½ xᵀA x + bᵀx` over the points whose
  inner product with the normal of each inequality is at least its bound, and
  with the normal of each equality is its bound. `Problem` carries its
  dimension and its two constraint counts in its type, so the vectors of a
  solve have the right lengths by construction.
-/

namespace ActiveSet

variable {α : Type}

/-- A normal vector and the bound that inner products with it are compared with. -/
structure Constraint (α : Type) (n : Nat) where
  normal : Vector α n
  bound : α

/-- By how much a point exceeds the bound. -/
def Constraint.slack [Scalar α] {n : Nat} (c : Constraint α n) (x : Vector α n) : α :=
  Vec.dot c.normal x - c.bound

/-- A quadratic program in `n` variables with `e` equalities and `m` inequalities. -/
structure Problem (α : Type) (n e m : Nat) where
  quadratic : Mat α n n
  linear : Vector α n
  equalities : Vector (Constraint α n) e
  inequalities : Vector (Constraint α n) m

namespace Problem

variable [Scalar α] {n e m : Nat}

/-- The problem with the symmetric part of the given matrix as its quadratic term. -/
def ofParts (A : Mat α n n) (b : Vector α n) (equalities inequalities : List (Constraint α n)) :
    Problem α n equalities.length inequalities.length where
  quadratic := A.symmetrized
  linear := b
  equalities := ⟨equalities.toArray, by simp⟩
  inequalities := ⟨inequalities.toArray, by simp⟩

/-- The value `½ xᵀA x + bᵀx`. -/
def objective (P : Problem α n e m) (x : Vector α n) : α :=
  Vec.dot (Vec.scale Scalar.half x) (P.quadratic.mulVec x) + Vec.dot P.linear x

/-- The gradient `A x + b` of the objective. -/
def gradient (P : Problem α n e m) (x : Vector α n) : Vector α n :=
  Vec.add (P.quadratic.mulVec x) P.linear

/-- The sum of the normals, each times its weight. -/
def combine {k : Nat} (constraints : Vector (Constraint α n) k) (weights : Vector α k) :
    Vector α n :=
  Vector.ofFn fun i =>
    Fin.foldl k (fun s j => s + (constraints.get j).normal.get i * weights.get j) 0

/-- The slack of every inequality at a point. -/
def slacks (P : Problem α n e m) (x : Vector α n) : Vector α m :=
  P.inequalities.map fun c => c.slack x

/-- The slack of every equality at a point. -/
def defects (P : Problem α n e m) (x : Vector α n) : Vector α e :=
  P.equalities.map fun c => c.slack x

end Problem

/-- A problem of any size. -/
structure Program (α : Type) where
  {dimension : Nat}
  {equalityCount : Nat}
  {inequalityCount : Nat}
  problem : Problem α dimension equalityCount inequalityCount

/-- The number of constraints of either kind. -/
def Program.constraintCount (program : Program α) : Nat :=
  program.equalityCount + program.inequalityCount

end ActiveSet

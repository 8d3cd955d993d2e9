import ActiveSet.Solver.Machine
/-
  The answer of a solve

  A solution is the best known point with the multipliers of all constraints:
  the dual value of each active one, zero for the rest. Its residual is the
  largest violation of any constraint; a NaN survives in it only when it comes
  from the equalities.
-/

namespace ActiveSet

/-- The answer of a solve. -/
structure Solution (α : Type) (n e m : Nat) where
  point : Vector α n
  value : α
  status : Status
  iterations : Nat
  evaluations : Nat
  /-- The active inequalities, in the order of their slots. -/
  activeSet : List Label
  equalityMultipliers : Vector α e
  inequalityMultipliers : Vector α m
  /-- The largest violation of a constraint at the point. -/
  residual : α

/-- Whether the point solves the problem. -/
def Solution.success {α : Type} {n e m : Nat} (s : Solution α n e m) : Bool := s.status = .proper

/-- The multipliers of all constraints. -/
structure Multipliers (α : Type) (e m : Nat) where
  equality : Vector α e
  inequality : Vector α m

namespace Multipliers

variable {α : Type} [Scalar α] {e m : Nat}

/-- No constraint pulls at the point. -/
def none : Multipliers α e m := ⟨Vec.zero e, Vec.zero m⟩

/-- Sets the multiplier of one constraint. -/
def record (l : Multipliers α e m) (member : Label × α) : Except Fault (Multipliers α e m) :=
  match member with
  | (.equality i, u) =>
    if h : i < e then .ok { l with equality := Vec.set l.equality ⟨i, h⟩ u }
    else .error .indexOutOfRange
  | (.inequality i, u) =>
    if h : i < m then .ok { l with inequality := Vec.set l.inequality ⟨i, h⟩ u }
    else .error .indexOutOfRange

/-- The multipliers that the active constraints give. -/
def ofMembers (members : List (Label × α)) : Except Fault (Multipliers α e m) :=
  members.foldlM record none

end Multipliers

namespace Problem

variable {α : Type} [Scalar α] {n e m : Nat}

/-- By how much the point falls short of each inequality. -/
def shortfalls (P : Problem α n e m) (x : Vector α n) : Vector α m :=
  P.inequalities.map fun c => Scalar.maximum (c.bound - Vec.dot c.normal x) 0

/-- The largest violation of a constraint at a point. -/
def residual (P : Problem α n e m) (x : Vector α n) : α :=
  Scalar.larger (Vec.maxAbs (P.defects x)) ((P.shortfalls x).foldl Scalar.maximum 0)

end Problem

namespace Solution

variable {α : Type} [Scalar α] {n e m slots : Nat}

/-- The answer at the point that a problem without constraints has its minimum at. -/
def unconstrained (P : Problem α n e m) (point : Vector α n) (value : α) : Solution α n e m where
  point
  value
  status := .proper
  iterations := 1
  evaluations := 1
  activeSet := []
  equalityMultipliers := Vec.zero e
  inequalityMultipliers := Vec.zero m
  residual := P.residual point

/-- The answer that a state of the solve stands for. -/
def ofMachine (P : Problem α n e m) (status : Status) (s : Machine α n slots m) :
    Except Fault (Solution α n e m) := do
  let ws := s.iterate.workspace
  let multipliers ← Multipliers.ofMembers ws.members
  return {
    point := s.iterate.point
    value := s.iterate.value
    status
    iterations := s.iterations
    evaluations := s.evaluations
    activeSet := ws.labelsFrom e
    equalityMultipliers := multipliers.equality
    inequalityMultipliers := multipliers.inequality
    residual := P.residual s.iterate.point }

end Solution

end ActiveSet

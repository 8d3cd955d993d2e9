import ActiveSet.Workspace
import ActiveSet.Linear.Triangular
/-
  Step directions

  For the normal of a constraint that is to be met, the image `d = Jᵀ n`
  splits at the number of active constraints. Its tail gives the direction
  `z = J₂ d₂` in which the point moves while every active constraint keeps its
  slack; its head gives the direction `r = R⁻¹ d₁` against which the dual
  values of the active constraints move.
-/

namespace ActiveSet

namespace Workspace

variable {α : Type} [Scalar α] {n slots : Nat}

/-- The combination of the columns from `first` on with the given coefficients. -/
def combineFrom (J : Mat α n n) (d : Vector α n) (first : Nat) : Vector α n :=
  Vector.ofFn fun i =>
    Fin.foldl n (fun s k => if first ≤ k.val then s + J.entry i k * d.get k else s) 0

/-- Computes the image of a normal and the direction in which the point moves. -/
def aim (ws : Workspace α n slots) (normal : Vector α n) : Workspace α n slots :=
  let d := ws.basis.transpose.mulVec normal
  { ws with image := d, primal := combineFrom ws.basis d ws.count }

/-- The direction against which the dual values move, from the image in hand. -/
def dualDirection (ws : Workspace α n slots) : Except Fault (Vector α ws.count) :=
  let R := ws.triangle.leading ws.count
  if Triangular.hasZeroPivot R then .error .singularTriangle
  else .ok (Triangular.solveUpper (· / ·) R (Vector.ofFn fun i => Vec.extend ws.image i))

/-- The longest step that keeps the dual values of the active constraints from slot `first` on
from turning negative, and the first constraint that stops it; none when nothing does. -/
def blocking (ws : Workspace α n slots) (direction : Vector α ws.count) (first : Nat) :
    Option (α × Label) :=
  (List.range' first (ws.count - first)).foldl
    (fun best k =>
      let r := Vec.extend direction k
      let ratio := Vec.extend ws.duals k / r
      let shorter := match best with
        | none => Scalar.isBelowTop ratio
        | some (b, _) => Scalar.lt ratio b
      if Scalar.lt 0 r && shorter then some (ratio, ws.label k) else best)
    none

/-- Whether the point can move in the direction in hand. -/
def canMove (ws : Workspace α n slots) : Bool :=
  Scalar.lt Scalar.epsilon (Scalar.abs (Vec.dot ws.primal ws.primal))

/-- The step that makes a violated constraint tight, where the point can move at all; none when
it cannot. -/
def fullStep (ws : Workspace α n slots) (slack curvature : α) : Option α :=
  if ws.canMove then some (-slack / curvature) else none

end Workspace

/-- The shorter of two steps, where none stands for a step without limit; the first unless the
second is shorter. -/
def shorterStep {α : Type} [Scalar α] : Option α → Option α → Option α
  | none, none => none
  | none, some f => if Scalar.isBelowTop f then some f else none
  | some p, none => some p
  | some p, some f => some (Scalar.smaller p f)

/-- A step that is a finite number. -/
def finiteStep {α : Type} [Scalar α] (step : Option α) : Option α :=
  step.filter Scalar.isFinite

/-- What to do about a violated constraint. -/
inductive Move (α : Type) where
  /-- Neither the point nor the dual values can move. -/
  | stay
  /-- The dual values move alone, until a constraint has to be dropped. -/
  | dual (step : α) (dropped : Label)
  /-- The point moves until the constraint is tight. -/
  | full (step : α)
  /-- The point moves until a constraint has to be dropped. -/
  | partway (step : α) (dropped : Label)

/-- The move that the directions in hand allow, by what limits the step. A step that nothing
blocks is full, and so is one that ends where the full one does. -/
def Workspace.plan {α : Type} [Scalar α] {n slots : Nat} (ws : Workspace α n slots)
    (direction : Vector α ws.count) (first : Nat) (slack curvature : α) : Move α :=
  let block := ws.blocking direction first
  let full := ws.fullStep slack curvature
  match finiteStep (shorterStep (block.map Prod.fst) full), finiteStep full, block with
  | none, _, _ => .stay
  | some _, none, none => .stay
  | some step, none, some (_, dropped) => .dual step dropped
  | some step, some _, none => .full step
  | some step, some full, some (_, dropped) =>
    if Scalar.lt (Scalar.abs (step - full)) Scalar.epsilon then .full step
    else .partway step dropped

end ActiveSet

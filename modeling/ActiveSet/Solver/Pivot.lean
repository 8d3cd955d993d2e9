import ActiveSet.Solver.Event
import ActiveSet.Workspace.Deletion
import ActiveSet.Workspace.Direction
import ActiveSet.Workspace.Fold
/-
  Adding one violated inequality

  A pass moves towards the feasible side of a candidate as far as the dual
  values of the active inequalities allow. When nothing stops it before the
  candidate is tight, the candidate is folded in. When an active inequality
  stops it, that one is dropped and another pass follows; where the point
  cannot move at all, only the dual values do. Dropping shrinks the active
  set, so the passes end (`count_of_pass`).
-/

namespace ActiveSet

/-- The state of a solve between two decisions. -/
structure Iterate (α : Type) (n slots m : Nat) where
  workspace : Workspace α n slots
  point : Vector α n
  /-- The value of the objective, as tracked from step to step. -/
  value : α
  slack : Vector α m
  /-- Which inequalities are in the active set. -/
  isActive : Vector Bool m
  /-- What happened so far, the latest first. -/
  events : List (Event α)

/-- How the work on a candidate ends. -/
inductive PivotOutcome where
  | added
  | degenerate
  | noStep
  deriving DecidableEq

/-- The outcome as a word. -/
def PivotOutcome.name : PivotOutcome → String
  | .added => "added"
  | .degenerate => "degenerate"
  | .noStep => "no_step"

/-- What a pass leads to. -/
inductive PassResult (α : Type) (n slots m : Nat) where
  /-- A constraint was dropped, and the candidate is still to be added. -/
  | again (s : Iterate α n slots m)
  | settled (outcome : PivotOutcome) (s : Iterate α n slots m)
  | failed (fault : Fault) (s : Iterate α n slots m)

namespace Iterate

variable {α : Type} [Scalar α] {n e m slots : Nat}

/-- The state with one more event. -/
def report (s : Iterate α n slots m) (event : Event α) : Iterate α n slots m :=
  { s with events := event :: s.events }

/-- Moves the dual values alone. -/
def dualMove (s : Iterate α n slots m) (step : α) (direction : Vector α s.workspace.count) :
    Iterate α n slots m :=
  { s with workspace := (s.workspace.relax step direction).raise step }

/-- Moves the point along the primal direction, with its value, and the dual values. -/
def move (s : Iterate α n slots m) (step curvature : α)
    (direction : Vector α s.workspace.count) : Iterate α n slots m :=
  let dual := Vec.extend s.workspace.duals s.workspace.count
  { s with
    point := Vec.add s.point (Vec.scale step s.workspace.primal)
    value := s.value + step * curvature * (Scalar.half * step + dual)
    workspace := (s.workspace.relax step direction).raise step }

/-- Takes a constraint out of the active set. -/
def drop (s : Iterate α n slots m) (label : Label) (equalities : Nat) :
    Except (Fault × Iterate α n slots m) (Iterate α n slots m) :=
  match label.position? m with
  | none => .error (.indexOutOfRange, s)
  | some i =>
    let s := { s with isActive := Vec.set s.isActive i false }
    match s.workspace.delete label equalities with
    | .error (fault, ws) => .error (fault, { s with workspace := ws })
    | .ok ws => .ok { s with workspace := ws }

theorem count_of_drop {s s' : Iterate α n slots m} {label : Label} {k : Nat}
    (h : s.drop label k = .ok s') : s'.workspace.count < s.workspace.count := by
  unfold drop at h
  split at h
  · cases h
  · dsimp only at h
    split at h
    · cases h
    · next ws hws =>
      cases h
      exact Workspace.count_of_delete hws

/-- Folds in the candidate after a step that made it tight. -/
def foldIn (s : Iterate α n slots m) (candidate : Fin m) (step : α) : PassResult α n slots m :=
  match s.workspace.fold with
  | (ws, true) => .settled .added ({ s with workspace := ws }.report (.fullStep step candidate))
  | (ws, false) => .settled .degenerate { s with workspace := ws }

/-- Moves the dual values until the blocking constraint is at zero, and drops it. -/
def dualStep (s : Iterate α n slots m) (step : α) (direction : Vector α s.workspace.count)
    (dropped : Label) (equalities : Nat) : PassResult α n slots m :=
  match ((s.report (.dualStep step dropped)).dualMove step direction).drop dropped equalities with
  | .error (fault, s) => .failed fault s
  | .ok s => .again s

/-- Drops the constraint that stopped a step, and measures the candidate again. -/
def partialStep (s : Iterate α n slots m) (step : α) (dropped : Label) (equalities : Nat)
    (candidate : Fin m) (constraint : Constraint α n) : PassResult α n slots m :=
  match (s.report (.partialStep step dropped)).drop dropped equalities with
  | .error (fault, s) => .failed fault s
  | .ok s => .again { s with slack := Vec.set s.slack candidate (constraint.slack s.point) }

/-- One pass: a dual step, a partial step or a full step towards the candidate, as planned. -/
def pass (P : Problem α n e m) (candidate : Fin m) (s : Iterate α n slots m) :
    PassResult α n slots m :=
  let constraint := P.inequalities.get candidate
  let s := { s with workspace := s.workspace.aim constraint.normal }
  match s.workspace.dualDirection with
  | .error fault => .failed fault s
  | .ok direction =>
    let curvature := Vec.dot s.workspace.primal constraint.normal
    match s.workspace.plan direction e (s.slack.get candidate) curvature with
    | .stay => .settled .noStep s
    | .dual step dropped => s.dualStep step direction dropped e
    | .full step => (s.move step curvature direction).foldIn candidate step
    | .partway step dropped =>
      (s.move step curvature direction).partialStep step dropped e candidate constraint

theorem count_of_dualStep {s s' : Iterate α n slots m} {step : α}
    {direction : Vector α s.workspace.count} {dropped : Label} {k : Nat}
    (h : s.dualStep step direction dropped k = .again s') :
    s'.workspace.count < s.workspace.count := by
  unfold dualStep at h
  split at h
  · cases h
  · next hd =>
    cases h
    have hlt := count_of_drop hd
    exact hlt

theorem count_of_partialStep {s s' : Iterate α n slots m} {step : α} {dropped : Label} {k : Nat}
    {candidate : Fin m} {constraint : Constraint α n}
    (h : s.partialStep step dropped k candidate constraint = .again s') :
    s'.workspace.count < s.workspace.count := by
  unfold partialStep at h
  split at h
  · cases h
  · next hd =>
    cases h
    have hlt := count_of_drop hd
    exact hlt

theorem foldIn_ne_again {s s' : Iterate α n slots m} {candidate : Fin m} {step : α} :
    s.foldIn candidate step ≠ .again s' := by
  unfold foldIn
  split <;> simp

theorem count_of_pass {P : Problem α n e m} {candidate : Fin m} {s s' : Iterate α n slots m}
    (h : s.pass P candidate = .again s') : s'.workspace.count < s.workspace.count := by
  unfold pass at h
  dsimp only at h
  split at h
  · cases h
  · split at h
    · cases h
    · have hlt := count_of_dualStep h
      exact hlt
    · exact absurd h foldIn_ne_again
    · have hlt := count_of_partialStep h
      exact hlt

/-- Readies the free slot for a candidate. -/
def enter (s : Iterate α n slots m) (candidate : Fin m) :
    Except Fault (Iterate α n slots m) :=
  (s.workspace.place (.inequality candidate) 0).map fun ws => { s with workspace := ws }

/-- Makes passes until the candidate is settled. -/
def passes (P : Problem α n e m) (candidate : Fin m) (s : Iterate α n slots m) :
    Except (Fault × Iterate α n slots m) (PivotOutcome × Iterate α n slots m) :=
  match _h : s.pass P candidate with
  | .again s' => passes P candidate s'
  | .settled outcome s' => .ok (outcome, s')
  | .failed fault s' => .error (fault, s')
termination_by s.workspace.count
decreasing_by exact count_of_pass _h

end Iterate

end ActiveSet

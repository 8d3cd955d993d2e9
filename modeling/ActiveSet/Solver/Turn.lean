import ActiveSet.Solver.Pivot
import ActiveSet.Linear.Dense
/-
  Adding one violated inequality to data of any lengths

  The passes of `Iterate.passes` once more, for a caller whose point, slacks
  and flags are lists of any lengths. Nothing is checked in advance: a list is
  read or written when a pass comes to it, and a list that does not fit ends
  the work there, with the workspace as far as it came. The moves are planned
  and carried out by the same operations on workspaces, and a turn that is not
  the last drops a constraint, so the turns end as the passes do.
-/

namespace ActiveSet

/-- The work on a candidate: its data before, or what has become of them. -/
structure PivotData (α : Type) where
  value : α
  point : List α
  slack : List α
  isActive : List Bool

namespace PivotData

variable {α : Type} [Scalar α] {n : Nat}

/-- The slack at a position, which may count from the end. -/
def slackAt (data : PivotData α) (candidate : Int) : Except Fault α :=
  match Dense.column? data.slack.length candidate with
  | some i => .ok (data.slack.get i)
  | none => .error .indexOutOfRange

/-- Replaces the slack at a position by that of a constraint at the point. -/
def measure (data : PivotData α) (candidate : Int) (constraint : Constraint α n) :
    Except Fault (PivotData α) :=
  if h : data.point.length = n then
    match Dense.column? data.slack.length candidate with
    | some i =>
      let slack := constraint.slack ⟨data.point.toArray, by simpa using h⟩
      .ok { data with slack := data.slack.set i slack }
    | none => .error .indexOutOfRange
  else .error .shapeMismatch

/-- Takes a constraint out of the flags. -/
def clear (data : PivotData α) (label : Label) : Except Fault (PivotData α) :=
  match label.position? data.isActive.length with
  | some i => .ok { data with isActive := data.isActive.set i false }
  | none => .error .indexOutOfRange

/-- Moves the point. A step in one dimension is taken by every entry of the list. -/
def advance (data : PivotData α) (step : α) (direction : Vector α n) :
    Except Fault (PivotData α) :=
  let steps := (Vec.scale step direction).toList
  match steps with
  | [s] => .ok { data with point := data.point.map (· + s) }
  | _ =>
    if data.point.length = n then
      .ok { data with point := data.point.zipWith (· + ·) steps }
    else .error .shapeMismatch

/-- The value after a move of the point. -/
def raised (data : PivotData α) (step curvature dual : α) : PivotData α :=
  { data with value := data.value + step * curvature * (Scalar.half * step + dual) }

end PivotData

/-- What a turn leads to, from a workspace with `count` active constraints. -/
inductive Turn (α : Type) (n slots count : Nat) where
  /-- A constraint was dropped, and the candidate is still to be added. -/
  | again (ws : Workspace α n slots) (data : PivotData α) (fewer : ws.count < count)
  | settled (outcome : PivotOutcome) (ws : Workspace α n slots) (data : PivotData α)
  | failed (fault : Fault) (ws : Workspace α n slots)

namespace Turn

variable {α : Type} [Scalar α] {n slots : Nat}

/-- Takes a constraint out of the flags and the workspace, and then sees to the data. -/
def drop (ws : Workspace α n slots) (data : PivotData α) (label : Label) (equalities : Nat)
    (rest : PivotData α → Except Fault (PivotData α)) : Turn α n slots ws.count :=
  match data.clear label with
  | .error fault => .failed fault ws
  | .ok data =>
    match h : ws.delete label equalities with
    | .error (fault, ws) => .failed fault ws
    | .ok ws' =>
      match rest data with
      | .error fault => .failed fault ws'
      | .ok data => .again ws' data (Workspace.count_of_delete h)

/-- Moves the dual values, the candidate's among them. -/
def moveDuals (ws : Workspace α n slots) (step : α) (direction : Vector α ws.count) :
    Workspace α n slots :=
  (ws.relax step direction).raise step

/-- Folds in the candidate after a step that made it tight. -/
def fold {count : Nat} (ws : Workspace α n slots) (data : PivotData α) : Turn α n slots count :=
  match ws.fold with
  | (ws, true) => .settled .added ws data
  | (ws, false) => .settled .degenerate ws data

/-- One turn: what the directions towards the candidate allow. The slack of the candidate is read
only where the point can move. -/
def take (constraint : Constraint α n) (equalities : Nat) (candidate : Int)
    (ws : Workspace α n slots) (data : PivotData α) : Turn α n slots ws.count :=
  let ws := ws.aim constraint.normal
  match ws.dualDirection with
  | .error fault => .failed fault ws
  | .ok direction =>
    match if ws.canMove then data.slackAt candidate else .ok 0 with
    | .error fault => .failed fault ws
    | .ok slack =>
      let curvature := Vec.dot ws.primal constraint.normal
      let moved (step : α) : Except Fault (PivotData α) :=
        (data.advance step ws.primal).map
          (·.raised step curvature (Vec.extend ws.duals ws.count))
      match ws.plan direction equalities slack curvature with
      | .stay => .settled .noStep ws data
      | .dual step dropped =>
        drop (moveDuals ws step direction) data dropped equalities .ok
      | .full step =>
        match moved step with
        | .error fault => .failed fault ws
        | .ok data => fold (moveDuals ws step direction) data
      | .partway step dropped =>
        match moved step with
        | .error fault => .failed fault ws
        | .ok data =>
          drop (moveDuals ws step direction) data dropped equalities
            (·.measure candidate constraint)

/-- Takes turns until the candidate is settled. -/
def last (constraint : Constraint α n) (equalities : Nat) (candidate : Int)
    (ws : Workspace α n slots) (data : PivotData α) :
    Workspace α n slots × Except Fault (PivotOutcome × PivotData α) :=
  match take constraint equalities candidate ws data with
  | .again ws' data' _ => last constraint equalities candidate ws' data'
  | .settled outcome ws' data' => (ws', .ok (outcome, data'))
  | .failed fault ws' => (ws', .error fault)
termination_by ws.count

end Turn

end ActiveSet

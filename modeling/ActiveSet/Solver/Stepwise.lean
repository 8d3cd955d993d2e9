import ActiveSet.Solver
import ActiveSet.Solver.Turn
/-
  The steps of a solve one at a time

  Each function carries out one step of a solve on a workspace of any size,
  with its data given as arrays. A step that fails leaves the workspace as far
  as it came, so each gives back a workspace beside its answer.
-/

namespace ActiveSet

/-- What a step leaves: the workspace, and the answer or why there is none. -/
structure StepResult (α β : Type) where
  buffers : Buffers α
  answer : Except Fault β

/-- The three directions of a step. -/
structure Directions (α : Type) where
  dual : List α
  image : List α
  primal : List α

namespace Buffers

variable {α : Type} [Scalar α]

/-- Forgets the active constraints. -/
def reset (b : Buffers α) : Buffers α := ⟨b.workspace.reset⟩

/-- Replaces the basis. -/
def setBasis (b : Buffers α) (basis : Nested α) : StepResult α Unit :=
  match basis.tensor.bind fun t => t.written [b.dimension, b.dimension] with
  | .error fault => ⟨b, .error fault⟩
  | .ok t => ⟨⟨{ b.workspace with basis := t.matrix b.dimension b.dimension }⟩, .ok ()⟩

/-- Copies what can be restored, with a point and a value. The point comes after the buffers, so
those are copied also when it does not fit; the counters and the value then stay. -/
def save (b : Buffers α) (point : Nested α) (value : α) : StepResult α Unit :=
  match point.tensor with
  | .error fault => ⟨b, .error fault⟩
  | .ok t =>
    match (t.written [b.dimension]).map fun t => t.flat? b.dimension with
    | .ok (some x) => ⟨⟨b.workspace.save x value⟩, .ok ()⟩
    | _ => ⟨⟨b.workspace.saveBuffers⟩, .error .shapeMismatch⟩

/-- Puts back what was copied. -/
def restore (b : Buffers α) : Buffers α := ⟨b.workspace.restore⟩

/-- The directions for a normal. -/
def direction (b : Buffers α) (normal : Nested α) : StepResult α (Directions α) :=
  match normal.tensor.bind fun t => Dense.RightHand.ofTensor t b.dimension with
  | .ok (.vector normal) =>
    let ws := b.workspace.aim normal
    ⟨⟨ws⟩, ws.dualDirection.map fun r => ⟨r.toList, ws.image.toList, ws.primal.toList⟩⟩
  | _ => ⟨b, .error .shapeMismatch⟩

/-- Names the constraint in the free slot, and folds in the image in hand for it. -/
def fold (b : Buffers α) (label : Label) (dual : α) : StepResult α Bool :=
  match b.workspace.place label dual with
  | .error fault => ⟨b, .error fault⟩
  | .ok ws =>
    let (ws, accepted) := ws.fold
    ⟨⟨ws⟩, .ok accepted⟩

/-- Takes out a constraint, searched for behind the first `equalities` slots. A negative number
starts the search in that many slots at the end, but what is found there counts as not active. -/
def delete (b : Buffers α) (label : Label) (equalities : Int) : StepResult α Unit :=
  let ws := b.workspace
  let wrapped := (-equalities).toNat
  if b.slots + 1 < wrapped then ⟨b, .error .indexOutOfRange⟩
  else if (List.range' (b.slots + 1 - wrapped) wrapped).any fun k => ws.label k = label then
    ⟨b, .error (.notActive label.code)⟩
  else
    match ws.delete label equalities.toNat with
    | .error (fault, ws) => ⟨⟨ws⟩, .error fault⟩
    | .ok ws => ⟨⟨ws⟩, .ok ()⟩

/-- Works on one violated inequality of a program. The inequality may be counted from the end;
its slot then keeps the name that the number stands for. -/
def pivot (b : Buffers α) (program : Program α) (candidate : Int) (data : PivotData α) :
    StepResult α (PivotOutcome × PivotData α) :=
  match Dense.column? program.inequalityCount candidate with
  | none => ⟨b, .error .indexOutOfRange⟩
  | some i =>
    match b.workspace.place (Label.ofCode candidate) 0 with
    | .error fault => ⟨b, .error fault⟩
    | .ok ws =>
      if h : program.dimension = b.dimension then
        let constraint : Constraint α b.dimension := h ▸ program.problem.inequalities.get i
        let (ws, answer) := Turn.last constraint program.equalityCount candidate ws data
        ⟨⟨ws⟩, answer⟩
      else ⟨⟨ws⟩, .error .shapeMismatch⟩

end Buffers

end ActiveSet

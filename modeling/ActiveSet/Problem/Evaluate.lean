import ActiveSet.Problem.Build
import ActiveSet.Tensor.Broadcast
/-
  The objective at a point given as an array

  A point is a list of as many numbers as the problem has variables. An array
  with more axes whose last two have that length is not refused for its shape
  by any product; it has an objective per entry instead of one number, unless
  these do not even align.
-/

namespace ActiveSet

/-- A point's objective and gradient. -/
structure Evaluation (α : Type) (n : Nat) where
  value : α
  gradient : Vector α n

/-- The objective and the gradient of a program at an array. -/
def Program.evaluate {α : Type} [Scalar α] (program : Program α) (point : Nested α) :
    Except Fault (Evaluation α program.dimension) := do
  let t ← point.tensor
  let n := program.dimension
  if t.shape = [n] then
    match t.flat? n with
    | some x => return ⟨program.problem.objective x, program.problem.gradient x⟩
    | none => throw .shapeMismatch
  else
    match t.shape.reverse with
    | a :: b :: rest =>
      let products := t.shape
      let linear := rest.reverse ++ [n]
      if a = n ∧ b = n ∧ (Tensor.commonShape? products linear).isSome then throw .notScalar
      else throw .shapeMismatch
    | _ => throw .shapeMismatch

end ActiveSet

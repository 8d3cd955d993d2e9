import ActiveSet.Linear.Dense
import ActiveSet.Problem.Build
import ActiveSet.Solver.Solution
/-
  Solving a quadratic program

  The dual active-set method for strictly convex programs starts from the
  unconstrained minimum `-A⁻¹ b` and adds violated constraints while the
  multipliers of the active ones stay admissible. A solve
  works in a workspace, which may be used again: what it holds from before
  has no influence. A solve also leaves the events it went through, and both
  stay when it fails.
-/

namespace ActiveSet

/-- How many iterations a solve may take where nothing else is asked for. -/
def defaultIterationLimit : Int := 100

/-- The factor between the size of the numbers involved and the violation that is negligible. -/
def feasibilityScale {α : Type} [Scalar α] : α := ((100 : Nat) : α)

/-- What a solve leaves: its workspace, the events in their order, and its answer. -/
structure Run (α : Type) (n e m slots : Nat) where
  workspace : Workspace α n slots
  events : List (Event α)
  outcome : Except Fault (Solution α n e m)

namespace Problem

variable {α : Type} [Scalar α] {n e m slots : Nat}

/-- The point `-A⁻¹ b`, from the factor of the quadratic term. -/
def unconstrainedPoint (P : Problem α n e m) (L : Mat α n n) : Vector α n :=
  Vec.neg (Cholesky.solve L P.linear)

/-- The objective at the unconstrained minimum, `½ bᵀx`. -/
def unconstrainedValue (P : Problem α n e m) (x : Vector α n) : α :=
  Scalar.half * Vec.dot P.linear x

/-- The violation of the inequalities that counts as none. -/
def tolerance (P : Problem α n e m) (condition : α) : α :=
  feasibilityScale * (m : α) * Scalar.epsilon * P.quadratic.trace * condition

/-- The state from which a solve sets out, given the inverse of the Cholesky factor. -/
def start (P : Problem α n e m) (inverse : Mat α n n) (point : Vector α n)
    (workspace : Workspace α n slots) : Machine α n slots m :=
  let value := P.unconstrainedValue point
  { iterate :=
      { workspace := { workspace.reset with basis := inverse.transpose }
        point
        value
        slack := Vector.ofFn fun k => Vec.extend workspace.slack k
        isActive := Vector.replicate m false
        events := [.started value (inverse.trace * P.quadratic.trace)] }
    phase := .equality 0
    iterations := 0
    evaluations := 1 }

/-- Solves a problem with constraints, from the factor of its quadratic term, in a workspace with
room for all of them. -/
def solveFrom (P : Problem α n e m) (L : Mat α n n) (limit : Nat)
    (workspace : Workspace α n slots) : Run α n e m slots :=
  if Triangular.hasZeroPivot L then
    { workspace := workspace.reset, events := [], outcome := .error .singularTriangle }
  else
    let inverse := Triangular.inverseLower L
    let (ending, s) :=
      (P.start inverse (P.unconstrainedPoint L) workspace).run P limit
        (P.tolerance inverse.trace)
    { workspace := s.iterate.workspace.keepSlack s.iterate.slack
      events := s.iterate.events.reverse
      outcome := ending.bind fun status => Solution.ofMachine P status s }

end Problem

/-- A workspace of any size. -/
structure Buffers (α : Type) where
  {dimension : Nat}
  {slots : Nat}
  workspace : Workspace α dimension slots

namespace Buffers

variable {α : Type} [Scalar α]

/-- A blank workspace for the given numbers of variables and constraints. -/
def allocate (dimension slots : Int) : Except Fault (Buffers α) :=
  if dimension ≤ 0 then .error .workspaceDimensionSign
  else if slots < 0 then .error .workspaceCountSign
  else .ok ⟨Workspace.blank dimension.toNat slots.toNat⟩

/-- The workspace as one for the program, if it has the dimension and enough room. -/
def fit (b : Buffers α) (program : Program α) :
    Except Fault (Workspace α program.dimension b.slots) :=
  if h : b.dimension = program.dimension then
    if b.slots < program.constraintCount then
      .error (.workspaceCount b.slots program.constraintCount)
    else .ok (h ▸ b.workspace)
  else .error (.workspaceDimension b.dimension program.dimension)

end Buffers

/-- An initial guess. Only the number of its entries matters to a solve; one that may be written
to and is a vector takes up the solution. -/
structure Guess (α : Type) where
  values : Nested α
  writable : Bool

namespace Guess

variable {α : Type} [Scalar α]

/-- The entries of the guess once a solve has found a point. -/
def after {n : Nat} (guess : Guess α) (point : Vector α n) : Except Fault (List α) := do
  let t ← guess.values.tensor
  return if guess.writable ∧ t.shape = [n] then point.toList else t.entries

end Guess

/-- What a solve of a program leaves: the workspace it was given, the events, and the answer. -/
structure Report (α : Type) (n e m : Nat) where
  buffers : Option (Buffers α)
  events : List (Event α)
  outcome : Except Fault (Solution α n e m)

namespace Program

variable {α : Type} [Scalar α]

/-- Checks what does not depend on the numbers of the problem, and factors its quadratic term. -/
def prepare (program : Program α) (guess : Option (Guess α)) (limit : Int) :
    Except Fault (Mat α program.dimension program.dimension) := do
  if limit < 0 then throw .negativeIterationLimit
  if let some guess := guess then
    if (← guess.values.tensor).size ≠ program.dimension then throw .guessLength
  Dense.factor program.problem.quadratic

/-- Solves a program. It works in the given workspace, if there is one, and in a blank one
otherwise; a program without constraints needs none. -/
def solve (program : Program α) (guess : Option (Guess α)) (limit : Int)
    (buffers : Option (Buffers α)) :
    Report α program.dimension program.equalityCount program.inequalityCount :=
  match program.prepare guess limit with
  | .error fault => ⟨buffers, [], .error fault⟩
  | .ok L =>
    let P := program.problem
    if program.constraintCount = 0 then
      let x := P.unconstrainedPoint L
      ⟨buffers, [], .ok (Solution.unconstrained P x (P.unconstrainedValue x))⟩
    else
      match buffers with
      | none =>
        let run := P.solveFrom L limit.toNat
          (Workspace.blank program.dimension program.constraintCount)
        ⟨none, run.events, run.outcome⟩
      | some b =>
        match b.fit program with
        | .error fault => ⟨buffers, [], .error fault⟩
        | .ok workspace =>
          let run := P.solveFrom L limit.toNat workspace
          ⟨some ⟨run.workspace⟩, run.events, run.outcome⟩

end Program

end ActiveSet

import ActiveSet.Region.Assemble
/-
  Programs from arrays of numbers

  The linear term is read first and sets the dimension; then the quadratic
  term, the inequalities and the equalities are checked against it in this
  order. A block of constraints is a matrix with one column per constraint and
  a vector of bounds, zero where none is given; a list of numbers as long as
  the dimension is a single column.
-/

namespace ActiveSet

variable {α : Type} [Scalar α]

/-- The normals and bounds of one kind of constraint, as given. -/
structure BlockInput (α : Type) where
  matrix : Option (Nested α)
  vector : Option (Nested α)

/-- The constraints of a block in `n` variables. -/
def BlockInput.constraints (block : BlockInput α) (kind : ConstraintKind) (n : Nat) :
    Except Fault (List (Constraint α n)) := do
  match block.matrix, block.vector with
  | none, none => return []
  | none, some vector =>
    if (← vector.tensor).size ≠ 0 then throw (.bareVector kind)
    return []
  | some matrix, vector =>
    let matrix ← matrix.tensor
    let k ← match matrix.shape with
      | [rows] => if rows = n then pure 1 else throw (.blockRows kind n)
      | [rows, k] => if rows = n then pure k else throw (.blockRows kind n)
      | _ => throw (.blockRows kind n)
    let bounds ← match vector with
      | none => pure (List.replicate k 0)
      | some vector => pure (← vector.tensor).entries
    if bounds.length ≠ k then throw (.blockVectorLength kind)
    return (matrix.columns n k).zipWith Constraint.mk bounds

/-- What a program is built from: its two terms, and its constraints as two blocks or as
regions. -/
structure ProgramInput (α : Type) where
  quadratic : Nested α
  linear : Nested α
  inequalities : BlockInput α
  equalities : BlockInput α
  regions : Option (List (RegionInput α))

namespace Program

/-- The linear term as a vector that is not empty. -/
def linearTerm (input : Nested α) : Except Fault ((n : Nat) × Vector α n) := do
  let b ← input.tensor
  if b.size = 0 then throw .emptyProblem
  return ⟨b.size, b.flat⟩

/-- The quadratic term as a square matrix of the given dimension. -/
def quadraticTerm (input : Nested α) (n : Nat) : Except Fault (Mat α n n) := do
  let A ← input.tensor
  if A.shape ≠ [n, n] then throw .quadraticShape
  return A.matrix n n

/-- The program with its constraints given as blocks. -/
def ofBlocks (quadratic linear : Nested α) (inequalities equalities : BlockInput α) :
    Except Fault (Program α) := do
  let ⟨n, b⟩ ← linearTerm linear
  let A ← quadraticTerm quadratic n
  let inequalities ← inequalities.constraints .inequality n
  let equalities ← equalities.constraints .equality n
  return ⟨Problem.ofParts A b equalities inequalities⟩

/-- The program over the points that lie in every region. The regions are joined before the two
terms are checked. -/
def ofRegions (quadratic linear : Nested α) (regions : List (RegionInput α)) :
    Except Fault (Program α) := do
  let b ← linear.tensor
  let system ← ConstraintSet.collect b.size regions
  if b.size = 0 then throw .emptyProblem
  let A ← quadraticTerm quadratic b.size
  return ⟨Problem.ofParts A b.flat system.equalities system.inequalities⟩

/-- The program that the input describes. -/
def ofInput (input : ProgramInput α) : Except Fault (Program α) :=
  match input.regions with
  | none => ofBlocks input.quadratic input.linear input.inequalities input.equalities
  | some regions => ofRegions input.quadratic input.linear regions

end Program

end ActiveSet

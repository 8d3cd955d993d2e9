import ActiveSet.Solver
/-
  Linear regression under constraints

  The coefficients `β` that minimize `Σ w (y - M β)²` over some regions are the
  solution of the quadratic program with quadratic term `Mᵀ M` and linear term
  `-Mᵀ y`, once each row of `M` and entry of `y` is scaled by the root of its
  weight. `M` needs at least as many rows as columns. The value of the answer
  is the weighted residual sum of squares at the coefficients.
-/

namespace ActiveSet

/-- Rows of a design matrix and what was observed for each. -/
structure Observations (α : Type) (rows coefficients : Nat) where
  design : Mat α rows coefficients
  observed : Vector α rows

namespace Observations

variable {α : Type} [Scalar α] {N p : Nat}

/-- The observations with every row scaled by the root of its weight. -/
def weighted (o : Observations α N p) (weights : Vector α N) : Observations α N p where
  design := Mat.ofFn fun i j => o.design.entry i j * Scalar.sqrt (weights.get i)
  observed := Vector.ofFn fun i => o.observed.get i * Scalar.sqrt (weights.get i)

/-- The inner products of the columns of the design matrix. -/
def gram (o : Observations α N p) : Mat α p p :=
  let columns := o.design.transpose
  Mat.ofFn fun i j => Vec.dot (columns.row i) (columns.row j)

/-- The inner products of the columns with the observations, with their signs changed. -/
def linear (o : Observations α N p) : Vector α p :=
  Vec.neg (o.design.transpose.mulVec o.observed)

/-- The sum of the squared residuals at some coefficients. -/
def residualSum (o : Observations α N p) (coefficients : Vector α p) : α :=
  let r := Vec.sub o.observed (o.design.mulVec coefficients)
  Vec.dot r r

/-- The quadratic program whose solution is the fit over the points of a system. -/
def problem (o : Observations α N p) (system : ConstraintSet α p) :
    Problem α p system.equalities.length system.inequalities.length :=
  Problem.ofParts o.gram o.linear system.equalities system.inequalities

end Observations

/-- A number and its further multiples by `t`, so many in all. -/
def multiples {α : Type} [Mul α] (t : α) : Nat → α → List α
  | 0, _ => []
  | k + 1, x => x :: multiples t k (x * t)

theorem length_multiples {α : Type} [Mul α] (t : α) (k : Nat) (x : α) :
    (multiples t k x).length = k := by
  induction k generalizing x with
  | zero => rfl
  | succ k ih => simp [multiples, ih]

/-- The powers of a number from the zeroth up, each the one before times the number. -/
def powers {α : Type} [Scalar α] (t : α) (order : Nat) : Vector α (order + 1) :=
  ⟨(1 :: multiples t order t).toArray, by simp [length_multiples]⟩

/-- The design matrix of a polynomial: the powers of each point. -/
def polynomialDesign {α : Type} [Scalar α] {N : Nat} (points : Vector α N) (order : Nat) :
    Mat α N (order + 1) :=
  ⟨points.map fun t => powers t order⟩

/-- The design matrix of a polynomial of the given order at points in an array of any shape. -/
def polynomialDesignOf {α : Type} [Scalar α] (points : Nested α) (order : Int) :
    Except Fault (Tensor α) := do
  if order < 0 then throw .negativeOrder
  return Tensor.ofMat (polynomialDesign (← points.tensor).flat order.toNat)

/-- Observations of any size. -/
structure Sample (α : Type) where
  {rows : Nat}
  {coefficients : Nat}
  observations : Observations α rows coefficients

namespace Sample

variable {α : Type} [Scalar α]

/-- The observations that a design matrix and arrays describe, with the weights applied. -/
def ofInput (design : Tensor α) (observed : Nested α) (weights : Option (Nested α)) :
    Except Fault (Sample α) := do
  let observed ← observed.tensor
  match design.shape with
  | [N, p] =>
    match observed.flat? N with
    | none => throw .observationCount
    | some y =>
      if N < p then throw .tooFewObservations
      let o : Observations α N p := ⟨design.matrix N p, y⟩
      match weights with
      | none => return ⟨o⟩
      | some weights =>
        match (← weights.tensor).flat? N with
        | none => throw .badWeights
        | some w =>
          if w.any fun x => Scalar.le x 0 then throw .badWeights
          return ⟨o.weighted w⟩
  | _ => throw .observationCount

end Sample

namespace Observations

variable {α : Type} [Scalar α] {N p : Nat}

/-- The answer of a fit, from the answer of its program: it must be proper, and its value is the
residual sum. -/
def answer {e m : Nat} (o : Observations α N p) (s : Solution α p e m) :
    Except Fault (Solution α p e m) :=
  if s.status = .proper then .ok { s with value := o.residualSum s.point }
  else .error (.fitFailed s.status)

/-- Fits the observations over the points of a system. -/
def fitOver (o : Observations α N p) (system : ConstraintSet α p) (limit : Int) :
    Report α p system.equalities.length system.inequalities.length :=
  let report := Program.solve ⟨o.problem system⟩ none limit none
  { report with outcome := report.outcome.bind o.answer }

end Observations

/-- What a fit leaves: the events of its solve, and its answer. -/
structure FitReport (α : Type) where
  {dimension : Nat}
  {equalityCount : Nat}
  {inequalityCount : Nat}
  events : List (Event α)
  outcome : Except Fault (Solution α dimension equalityCount inequalityCount)

/-- Fits the observations over regions. A fit needs at least one coefficient. -/
def Sample.fit {α : Type} [Scalar α] (sample : Sample α) (regions : List (RegionInput α))
    (limit : Int) : Except Fault (FitReport α) := do
  let system ← ConstraintSet.collect sample.coefficients regions
  if sample.coefficients = 0 then throw .emptyProblem
  let report := sample.observations.fitOver system limit
  return ⟨report.events, report.outcome⟩

/-- A fit that came to an end, in words. -/
def fitText (residualSum : Float) : String :=
  "Constrained regression residual sum of squares " ++ Decimal.generalText 6 residualSum

end ActiveSet

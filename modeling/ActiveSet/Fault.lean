/-
  Faults — why an operation gives no result

  Each constructor is one cause. `Fault.message?` words the causes that this
  library checks for itself; a fault without words comes out of the arithmetic
  beneath it: data that is no rectangular array, operands that do not fit, a
  matrix that cannot be factored, a zero divisor, an index past the end.
-/

namespace ActiveSet

/-- The two kinds of linear constraint. -/
inductive ConstraintKind where
  | inequality
  | equality
  deriving DecidableEq

/-- The kind's name at the head of a message. -/
def ConstraintKind.name : ConstraintKind → String
  | .inequality => "Inequality"
  | .equality => "Equality"

/-- How a solve ended. -/
inductive Status where
  | proper
  | roundOff
  | iterationLimit
  deriving DecidableEq

namespace Status

/-- The status as one word. -/
def name : Status → String
  | .proper => "proper_result"
  | .roundOff => "round_off_error"
  | .iterationLimit => "iteration_limit_exceeded"

/-- The status explained. -/
def message : Status → String
  | .proper => "All constraints satisfied within tolerance"
  | .roundOff => "No step in primal or dual space possible (round-off error)"
  | .iterationLimit => "Maximum iterations reached"

end Status

/-- The cause of a failure. -/
inductive Fault where
  /-- Nested lists of unequal shapes, or more of them inside one another than an array has axes. -/
  | ragged
  /-- Operands whose shapes do not fit together. -/
  | shapeMismatch
  /-- A matrix that is not square, where one is factored or solved with. -/
  | notSquare
  /-- An infinite entry or a NaN in a matrix that is to be factored. -/
  | notFinite
  /-- A value with several entries, where one number is needed. -/
  | notScalar
  /-- A triangular system with a zero on its diagonal. -/
  | singularTriangle
  | divisionByZero
  | indexOutOfRange
  | notPositiveDefinite
  | emptyProblem
  | quadraticShape
  | bareVector (kind : ConstraintKind)
  | blockRows (kind : ConstraintKind) (dimension : Nat)
  | blockVectorLength (kind : ConstraintKind)
  | regionRank (kind : ConstraintKind)
  | regionVectorLength (kind : ConstraintKind)
  | boundLengths
  | boundsCrossed
  | unsupportedRegion (type : String)
  | regionDimension (region : Nat) (problem : Int)
  | unknownDimension
  | negativeIterationLimit
  | guessLength
  | workspaceDimensionSign
  | workspaceCountSign
  | workspaceDimension (workspace problem : Nat)
  | workspaceCount (workspace problem : Nat)
  | notActive (code : Int)
  | dependentEquality (index : Nat)
  | pointLength
  | multiplierLengths
  | negativeOrder
  | observationCount
  | tooFewObservations
  | badWeights
  | fitFailed (status : Status)

/-- The words of a fault that this library raises itself. -/
def Fault.message? : Fault → Option String
  | .ragged | .shapeMismatch | .notSquare | .notFinite | .notScalar | .singularTriangle
  | .divisionByZero | .indexOutOfRange => none
  | .notPositiveDefinite => some "A must be symmetric positive definite"
  | .emptyProblem => some "The problem dimension must be positive"
  | .quadraticShape => some "A must be square and match the dimension of b"
  | .bareVector kind => some (kind.name ++ " vector given without a constraint matrix")
  | .blockRows kind n =>
    some (kind.name ++ " matrix must have " ++ toString n ++ " rows (one per variable)")
  | .blockVectorLength kind =>
    some (kind.name ++ " vector length must match the number of constraint columns")
  | .regionRank kind => some (kind.name ++ " matrix must be two-dimensional")
  | .regionVectorLength kind =>
    some (kind.name ++ " vector length must match the number of columns")
  | .boundLengths => some "Lower and upper bounds must have the same length"
  | .boundsCrossed => some "Lower bound exceeds upper bound"
  | .unsupportedRegion type => some ("Unsupported constraint region: " ++ type)
  | .regionDimension r n =>
    some ("Region of dimension " ++ toString r ++ " does not match problem dimension " ++
      toString n)
  | .unknownDimension => some "The dimension cannot be inferred without any region"
  | .negativeIterationLimit => some "maxiter must be non-negative"
  | .guessLength => some "Initial guess must match the problem dimension"
  | .workspaceDimensionSign => some "dimension must be positive"
  | .workspaceCountSign => some "constraint_count must be non-negative"
  | .workspaceDimension w n =>
    some ("Workspace dimension " ++ toString w ++ " does not match problem dimension " ++
      toString n)
  | .workspaceCount w m =>
    some ("Workspace holds " ++ toString w ++ " constraints, problem has " ++ toString m)
  | .notActive code => some ("Inequality constraint " ++ toString code ++ " is not active")
  | .dependentEquality i =>
    some ("The equality constraints are linearly dependent (constraint " ++ toString i ++ ").")
  | .pointLength => some "x must match the problem dimension"
  | .multiplierLengths => some "Multiplier lengths must match the constraint counts"
  | .negativeOrder => some "order must be non-negative"
  | .observationCount => some "Design matrix rows must match the number of observations"
  | .tooFewObservations => some "Fewer observations than coefficients"
  | .badWeights => some "weights must be positive, one per observation"
  | .fitFailed status => some ("Constrained regression failed: " ++ status.message)

end ActiveSet

import ActiveSet.Certificate
import ActiveSet.Journal.Registry
import ActiveSet.Problem.Evaluate
import ActiveSet.Regression
import ActiveSet.Scalar.Double
import ActiveSet.Solver.Stepwise
import ActiveSet.Proofs.Cholesky
import ActiveSet.Proofs.Rotation
import ActiveSet.Proofs.Deletion
import ActiveSet.Proofs.Factorization
import ActiveSet.Proofs.Course
import ActiveSet.Proofs.Transition
import ActiveSet.Proofs.Slots
import ActiveSet.Proofs.Plan
import ActiveSet.Proofs.Seating
import ActiveSet.Proofs.Upkeep
import ActiveSet.Proofs.Columns
import ActiveSet.Proofs.Direction
import ActiveSet.Proofs.Tightness
import ActiveSet.Proofs.Feasibility
import ActiveSet.Proofs.Signs
import ActiveSet.Proofs.Balance
import ActiveSet.Proofs.Multipliers
import ActiveSet.Proofs.Duality
import ActiveSet.Proofs.Advance
import ActiveSet.Proofs.Bookkeeping
import ActiveSet.Proofs.Ascent
import ActiveSet.Proofs.Infeasibility
import ActiveSet.Proofs.Convergence
import ActiveSet.Proofs.Rollback
import ActiveSet.Proofs.Alike
import ActiveSet.Proofs.Lockstep
import ActiveSet.Proofs.Regauge
import ActiveSet.Proofs.Reuse
import ActiveSet.Proofs.Scaling
import ActiveSet.Proofs.Safety
import ActiveSet.Proofs.Gap
import ActiveSet.Proofs.Projection
import ActiveSet.Proofs.Dependence
import ActiveSet.Proofs.Extended
import ActiveSet.Proofs.Numbers
import ActiveSet.Proofs.Residuals
import ActiveSet.Proofs.Effort
import ActiveSet.Proofs.Assembly
import ActiveSet.Proofs.LeastSquares
import ActiveSet.Proofs.Loggers
import ActiveSet.Proofs.Unconstrained
import ActiveSet.Proofs.PolynomialFit
import ActiveSet.Proofs.Truncation
import ActiveSet.Proofs.Refusals
import ActiveSet.Proofs.Erasure
import ActiveSet.Proofs.Reflection

import ActiveSet.Problem.Build
/-
  Optimality certificates

  A point with multipliers `λ` for the equalities and `μ` for the inequalities
  is optimal when it meets the constraints, `A x + b` is the combination of
  the normals with these multipliers, no `μ` is negative, and each `μ` goes
  with a slack of zero. `Residuals` measures how far a point is from each of
  these conditions in its worst entry; a NaN in any of them is in the residual
  too, and then the point does not pass.
-/

namespace ActiveSet

/-- How far a point with multipliers is from each optimality condition. -/
structure Residuals (α : Type) where
  primalEquality : α
  primalInequality : α
  /-- The gradient less the combination of the normals. -/
  dual : α
  complementary : α
  /-- The most negative multiplier of an inequality, in size. -/
  dualSign : α

namespace Residuals

variable {α : Type} [Scalar α]

/-- The residuals in order. -/
def toList (r : Residuals α) : List α :=
  [r.primalEquality, r.primalInequality, r.dual, r.complementary, r.dualSign]

/-- Whether no residual exceeds the tolerance. -/
def within (r : Residuals α) (tolerance : α) : Bool := r.toList.all fun x => Scalar.le x tolerance

end Residuals

namespace Problem

variable {α : Type} [Scalar α] {n e m : Nat}

/-- The gradient less the combination of the normals with the given multipliers. -/
def stationarity (P : Problem α n e m) (x : Vector α n) (lam : Vector α e) (mu : Vector α m) :
    Vector α n :=
  Vec.sub (Vec.sub (P.gradient x) (combine P.equalities lam)) (combine P.inequalities mu)

/-- The residuals of the optimality conditions. -/
def residuals (P : Problem α n e m) (x : Vector α n) (lam : Vector α e) (mu : Vector α m) :
    Residuals α where
  primalEquality := Vec.maxAbs (P.defects x)
  primalInequality := Vec.maxAbs ((P.slacks x).map fun s => Scalar.minimum s 0)
  dual := Vec.maxAbs (P.stationarity x lam mu)
  complementary := Vec.maxAbs (Vector.zipWith (· * ·) (P.slacks x) mu)
  dualSign := Vec.maxAbs (mu.map fun u => Scalar.minimum u 0)

/-- Whether the point with its multipliers is optimal up to the tolerance. -/
def isOptimal (P : Problem α n e m) (x : Vector α n) (lam : Vector α e) (mu : Vector α m)
    (tolerance : α) : Bool :=
  (P.residuals x lam mu).within tolerance

end Problem

namespace Program

variable {α : Type} [Scalar α]

/-- The entries of an array as multipliers of `k` constraints; missing ones are all zero. -/
def multipliers (k : Nat) : Option (Nested α) → Except Fault (Option (Vector α k))
  | none => .ok (some (Vec.zero k))
  | some values => values.tensor.map fun t => t.flat? k

/-- The residuals at a point and multipliers given as arrays. -/
def residuals (program : Program α) (x : Nested α) (lam mu : Option (Nested α)) :
    Except Fault (Residuals α) := do
  match (← x.tensor).flat? program.dimension with
  | none => throw .pointLength
  | some x =>
    let lam ← multipliers program.equalityCount lam
    let mu ← multipliers program.inequalityCount mu
    match lam, mu with
    | some lam, some mu => return program.problem.residuals x lam mu
    | _, _ => throw .multiplierLengths

end Program

end ActiveSet

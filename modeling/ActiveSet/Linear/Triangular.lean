import ActiveSet.Linear.Basic
/-
  Triangular systems

  Forward and backward substitution, each by recursion on the dimension: one
  unknown is found from its diagonal entry, and the rest solve the system
  without the first row and column. Only the triangle that names the system
  is read. `hasZeroPivot` is the exact condition under which a system of
  either kind is refused.

  How the diagonal entry is divided by is a parameter. Where one matrix has
  several right-hand sides, the reciprocals of its diagonal entries serve all
  of them (`byReciprocal`); that differs from a division in the last place,
  and altogether where the reciprocal leaves the range of the numbers.
-/

namespace ActiveSet

namespace Triangular

variable {α : Type} [Scalar α]

/-- The quotient as a product with the reciprocal. -/
def byReciprocal (x y : α) : α := x * (1 / y)

/-- Whether a diagonal entry is exactly zero. -/
def hasZeroPivot {n : Nat} (T : Mat α n n) : Bool :=
  (List.finRange n).any fun i => Scalar.isZero (T.entry i i)

/-- The solution of `L y = b`, reading the lower triangle of `L`. -/
def solveLower (quotient : α → α → α) : {n : Nat} → Mat α n n → Vector α n → Vector α n
  | 0, _, b => b
  | _ + 1, L, b =>
    let y := quotient (b.get 0) (L.entry 0 0)
    Vec.cons y
      (solveLower quotient L.tail (Vector.ofFn fun i => b.get i.succ - L.entry i.succ 0 * y))

/-- The solution of `U y = b`, reading the upper triangle of `U`; the known terms are
subtracted from the last unknown to the first. -/
def solveUpper (quotient : α → α → α) : {n : Nat} → Mat α n n → Vector α n → Vector α n
  | 0, _, b => b
  | n + 1, U, b =>
    let rest : Vector α n := solveUpper quotient U.tail (Vector.ofFn fun i => b.get i.succ)
    let known := Fin.foldr n (fun j s => s - U.entry 0 j.succ * rest.get j) (b.get 0)
    Vec.cons (quotient known (U.entry 0 0)) rest

/-- The inverse of a lower triangular matrix, one column per unit vector. -/
def inverseLower {n : Nat} (L : Mat α n n) : Mat α n n :=
  Mat.ofColumns (Vector.ofFn fun j => solveLower byReciprocal L (Vec.unit j))

end Triangular

end ActiveSet

import ActiveSet.Linear.Triangular
/-
  The Cholesky factorization of a positive definite matrix

  The factor is built column by column: the first pivot gives the first
  column, and the rest factors the Schur complement. It fails as soon as a
  pivot is zero or below, and for no other reason; a NaN, which comes out of
  finite entries when products leave the range, is neither. Only the lower
  triangle is read.
-/

namespace ActiveSet

namespace Cholesky

variable {α : Type} [Scalar α]

/-- What is left to factor once the first column is known: the matrix without its first row
and column, less the products of the column's entries. -/
def complement {n : Nat} (A : Mat α (n + 1) (n + 1)) (column : Vector α n) : Mat α n n :=
  Mat.ofFn fun i j => A.entry i.succ j.succ - column.get i * column.get j

/-- The lower triangular matrix with the given corner, first column and remainder. -/
def border {n : Nat} (corner : α) (column : Vector α n) (rest : Mat α n n) :
    Mat α (n + 1) (n + 1) :=
  Mat.ofFn (Fin.cases (Fin.cases corner fun _ => 0)
    fun i => Fin.cases (column.get i) fun j => rest.entry i j)

/-- The lower triangular `L` with `L Lᵀ = A`, or nothing when a pivot is zero or below. -/
def factor? : {n : Nat} → Mat α n n → Option (Mat α n n)
  | 0, A => some A
  | n + 1, A =>
    if Scalar.le (A.entry 0 0) 0 then none
    else
      let corner := Scalar.sqrt (A.entry 0 0)
      let column : Vector α n :=
        Vector.ofFn fun i => Triangular.byReciprocal (A.entry i.succ 0) corner
      (factor? (complement A column)).map (border corner column)

/-- The solution of `L Lᵀ x = b` for a lower triangular `L`. -/
def solve {n : Nat} (L : Mat α n n) (b : Vector α n) : Vector α n :=
  Triangular.solveUpper Triangular.byReciprocal L.transpose
    (Triangular.solveLower Triangular.byReciprocal L b)

end Cholesky

end ActiveSet

import ActiveSet.Linear.Cholesky
import ActiveSet.Linear.Rotation
import ActiveSet.Tensor.Batch
/-
  The dense operations on arrays of any shape

  Each operation checks that the arrays are what it needs, in the order in
  which the checks are made, and then calls the operation on sized vectors
  and matrices. Arrays of more axes are batches of matrices, of which each is
  taken by itself. Unlike the solver, which never meets them, these entrances
  also refuse divisions by zero.
-/

namespace ActiveSet

namespace Dense

variable {α : Type} [Scalar α]

/-- Whether every entry is a finite number. -/
def allFinite {m n : Nat} (A : Mat α m n) : Bool := A.rows.all fun row => row.all Scalar.isFinite

/-- The Cholesky factor of a matrix of finite numbers. -/
def factor {n : Nat} (A : Mat α n n) : Except Fault (Mat α n n) :=
  if allFinite A then
    match Cholesky.factor? A with
    | some L => .ok L
    | none => .error .notPositiveDefinite
  else .error .notFinite

/-- The right-hand sides for `n` equations: one vector, or the columns of a matrix. -/
inductive RightHand (α : Type) (n : Nat) where
  | vector (b : Vector α n)
  | matrix {k : Nat} (B : Mat α n k)

namespace RightHand

/-- The right-hand sides that an array of one or two axes holds. -/
def ofTensor (t : Tensor α) (n : Nat) : Except Fault (RightHand α n) :=
  match t.shape with
  | [] => .error .indexOutOfRange
  | [m] =>
    match t.flat? n with
    | some b => if m = n then .ok (.vector b) else .error .shapeMismatch
    | none => .error .shapeMismatch
  | [m, k] => if m = n then .ok (.matrix (t.matrix n k)) else .error .shapeMismatch
  | _ => .error .shapeMismatch

/-- The number of right-hand sides. -/
def count {n : Nat} : RightHand α n → Nat
  | vector _ => 1
  | matrix (k := k) _ => k

/-- The solutions in the place of their right-hand sides. -/
def solutions {n : Nat} (solve : Vector α n → Vector α n) : RightHand α n → Tensor α
  | vector b => Tensor.ofVector (solve b)
  | matrix B => Tensor.ofMat (Mat.ofColumns (Vector.ofFn fun j => solve (B.column j)))

/-- The number of axes that right-hand sides take up in an array. -/
def axes (t : Tensor α) : Nat := min 2 (max 1 t.rank)

end RightHand

/-- The Cholesky factor of every matrix of a batch; a number, and a list of one number, count as
a matrix with one entry. -/
def choleskyFactor : Tensor α → Except Fault (Tensor α) :=
  Tensor.overBatch 2 fun t => do
    if t.shape = [] ∨ t.shape = [1] then return Tensor.ofMat (← factor (t.matrix 1 1))
    let ⟨_, A⟩ ← t.square
    return Tensor.ofMat (← factor A)

/-- The solution of `L Lᵀ x = b`. -/
def choleskySolve (L b : Tensor α) : Except Fault (Tensor α) :=
  Tensor.overBatches 2 (RightHand.axes b)
    (fun L b => do
      let ⟨n, L⟩ ← L.square
      return (← RightHand.ofTensor b n).solutions (Cholesky.solve L))
    L b

/-- The solution of a system with a triangular matrix. -/
def solveTriangular (solve : {n : Nat} → (several : Bool) → Mat α n n → Vector α n → Vector α n)
    (T b : Tensor α) : Except Fault (Tensor α) :=
  Tensor.overBatches 2 (RightHand.axes b)
    (fun T b => do
      let ⟨n, T⟩ ← T.square
      let b ← RightHand.ofTensor b n
      if b.count ≠ 0 ∧ Triangular.hasZeroPivot T then throw .singularTriangle
      return b.solutions (solve (2 ≤ b.count) T))
    T b

/-- The inverse of a lower triangular matrix. For a batch of matrices, the unit vectors are those
of as many dimensions as the batch has places. -/
def inverseLower (L : Tensor α) : Except Fault (Tensor α) :=
  match L.shape with
  | [] => .error .indexOutOfRange
  | m :: _ =>
    solveTriangular (fun _ => Triangular.solveLower Triangular.byReciprocal) L
      (Tensor.ofMat (Mat.ofFn fun (i j : Fin m) => if i = j then 1 else 0))

/-- The solution of `U y = b` for an upper triangular matrix; no equations have the empty
solution, whatever the matrix. A single right-hand side is divided by the diagonal entries,
several share the reciprocals. -/
def solveUpper (U b : Tensor α) : Except Fault (Tensor α) :=
  match b.shape with
  | [] => .error .indexOutOfRange
  | 0 :: _ => .ok (Tensor.ofVector (Vec.zero 0))
  | _ =>
    solveTriangular
      (fun several =>
        Triangular.solveUpper (if several then Triangular.byReciprocal else (· / ·)))
      U b

/-- The rotation of a pair. A pair of length zero divides by zero unless it is below the
threshold. -/
def rotation? (a b threshold : α) : Except Fault (Option (Rotation α)) :=
  let h := Scalar.hypot a b
  if Scalar.lt h threshold then .ok none
  else if Scalar.isZero h then .error .divisionByZero
  else .ok (Rotation.ofPair? a b threshold)

/-- The column that a number selects among `n`; negative numbers count from the end. -/
def column? (n : Nat) (index : Int) : Option (Fin n) :=
  let i := if index < 0 then index + n else index
  if h : 0 ≤ i ∧ i < n then some ⟨i.toNat, by omega⟩ else none

/-- A bound of a range among `n` places; negative numbers count from the end, and what lies
outside is cut off. -/
def cutOff (n : Nat) (index : Int) : Nat :=
  min n (if index < 0 then index + n else index).toNat

/-- The column of the entry numbered `l` of the places in column `i`, where every place holds
`depth` entries. -/
def innerColumn {n depth : Nat} (i : Fin n) (l : Fin depth) : Fin (n * depth) :=
  ⟨i.val * depth + l.val,
    calc
      i.val * depth + l.val < i.val * depth + depth := Nat.add_lt_add_left l.isLt _
      _ = (i.val + 1) * depth := (Nat.succ_mul ..).symm
      _ ≤ n * depth := Nat.mul_le_mul_right _ i.isLt⟩

/-- The array with two columns rotated by `[[c, s], [s, -c]]` in a range of its rows. The first
axis counts the rows and the second the columns; further axes number the entries of a place,
which are rotated one by one. -/
def rotateColumns (t : Tensor α) (first second : Int) (cosine sine : α)
    (start stop : Option Int) : Except Fault (Tensor α) :=
  match t.shape with
  | m :: n :: places =>
    match column? n first, column? n second with
    | some i, some j =>
      if Scalar.isZero (1 + cosine) then .error .divisionByZero
      else
        let low := (start.map (cutOff m)).getD 0
        let high := (stop.map (cutOff m)).getD m
        let g : Rotation α := ⟨cosine, sine, 1⟩
        let depth := entryCount places
        let rotated := Fin.foldl depth
          (fun A l => g.onColumns A (innerColumn i l) (innerColumn j l)
            fun r => decide (low ≤ r.val ∧ r.val < high))
          (t.matrix m (n * depth))
        (Tensor.ofMat rotated).reshape t.shape
    | _, _ => .error .indexOutOfRange
  | _ => .error .indexOutOfRange

end Dense

end ActiveSet

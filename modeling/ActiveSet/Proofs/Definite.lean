import ActiveSet.Proofs.Cholesky
/-
  What the factorization refuses

  A symmetric matrix has a Cholesky factor exactly if it is positive definite
  (`exists_factor?_iff`). A factor `L` makes `L Lᵀ` positive definite, since `L`
  is invertible. In the other direction the first pivot is a diagonal entry
  of the matrix, and the complement that is factored next is positive definite
  again: it is `Eᵀ A E` for the columns `E` that eliminate the first row
  (`complement_eq`).
-/

open Matrix

namespace ActiveSet

namespace Cholesky

variable {n : Nat}

/-- The combinations of rows with the multiple `c j` of the first one taken off each. -/
noncomputable def eliminator (c : Fin n → ℝ) : Matrix (Fin (n + 1)) (Fin n) ℝ :=
  Matrix.of (Fin.cons (-c) (1 : Matrix (Fin n) (Fin n) ℝ))

theorem eliminator_zero (c : Fin n → ℝ) (j : Fin n) : eliminator c 0 j = -c j := rfl

theorem eliminator_succ (c : Fin n → ℝ) (i j : Fin n) :
    eliminator c i.succ j = (1 : Matrix (Fin n) (Fin n) ℝ) i j := rfl

/-- The elimination loses no vector. -/
theorem mulVec_eliminator_succ (c x : Fin n → ℝ) (i : Fin n) :
    (eliminator c *ᵥ x) i.succ = x i := by
  show ∑ j, eliminator c i.succ j * x j = x i
  simp only [eliminator_succ]
  exact congrFun (Matrix.one_mulVec x) i

theorem eliminator_injective (c : Fin n → ℝ) : Function.Injective (eliminator c).mulVec := by
  intro x y hxy
  funext i
  rw [← mulVec_eliminator_succ c x i, hxy, mulVec_eliminator_succ]

/-- The complement is what the elimination of the first column leaves. -/
theorem complement_eq {A : Mat ℝ (n + 1) (n + 1)} (hA : A.IsSymmetric) (hpos : 0 < A.entry 0 0)
    {c : Fin n → ℝ} (hc : ∀ j, c j = A.entry j.succ 0 / A.entry 0 0) :
    (complement A (Vector.ofFn fun i => A.entry i.succ 0 / √(A.entry 0 0))).toMatrix =
      (eliminator c)ᵀ * A.toMatrix * eliminator c := by
  ext i j
  have hcolumn (k : Fin (n + 1)) : (A.toMatrix * eliminator c) k j =
      A.entry k j.succ - A.entry k 0 * (A.entry j.succ 0 / A.entry 0 0) := by
    rw [Matrix.mul_apply, Fin.sum_univ_succ]
    simp only [eliminator_zero, eliminator_succ, Mat.toMatrix_apply, Matrix.one_apply, mul_ite,
      mul_one, mul_zero, Finset.sum_ite_eq', Finset.mem_univ, if_true, hc]
    ring
  rw [Matrix.mul_assoc, Matrix.mul_apply, Fin.sum_univ_succ]
  simp only [Matrix.transpose_apply, eliminator_zero, eliminator_succ, hcolumn, Matrix.one_apply,
    ite_mul, one_mul, zero_mul, Finset.sum_ite_eq', Finset.mem_univ, if_true]
  -- the first row is eliminated
  rw [hA 0 j.succ, mul_div_cancel₀ _ hpos.ne', sub_self, mul_zero, zero_add]
  simp only [Mat.toMatrix_apply, complement, Mat.entry_ofFn, Vec.get_ofFn]
  rw [div_mul_div_comm, Real.mul_self_sqrt hpos.le, mul_div_assoc]

theorem posDef_complement {A : Mat ℝ (n + 1) (n + 1)} (hA : A.IsSymmetric)
    (hdefinite : A.toMatrix.PosDef) (hpos : 0 < A.entry 0 0) :
    (complement A (Vector.ofFn fun i => A.entry i.succ 0 / √(A.entry 0 0))).toMatrix.PosDef := by
  rw [complement_eq hA hpos fun _ => rfl, ← Matrix.conjTranspose_eq_transpose_of_trivial]
  exact hdefinite.conjTranspose_mul_mul_same (eliminator_injective _)

/-- A positive definite matrix has a factor. -/
theorem exists_factor? {A : Mat ℝ n n} (hA : A.IsSymmetric) (hdefinite : A.toMatrix.PosDef) :
    ∃ L, factor? A = some L := by
  induction n with
  | zero => exact ⟨A, rfl⟩
  | succ n ih =>
    have hpos : 0 < A.entry 0 0 := hdefinite.diag_pos (i := 0)
    obtain ⟨rest, hrest⟩ := ih (isSymmetric_complement hA _) (posDef_complement hA hdefinite hpos)
    rw [factor?_eq]
    simp only [if_neg (not_le.mpr hpos), hrest]
    exact ⟨_, rfl⟩

/-- A matrix with a factor is positive definite. -/
theorem posDef_of_factor? {A L : Mat ℝ n n} (hA : A.IsSymmetric) (h : factor? A = some L) :
    A.toMatrix.PosDef := by
  have hinverse := Triangular.mul_inverseLower L (isLower_factor? h) fun i =>
    (diagonal_factor?_pos h i).ne'
  rw [← factor?_mul_transpose hA h, ← Matrix.conjTranspose_eq_transpose_of_trivial]
  refine Matrix.PosDef.mul_conjTranspose_self L.toMatrix fun x y hxy => ?_
  rw [← Matrix.vecMul_one x, ← Matrix.vecMul_one y, ← hinverse, ← Matrix.vecMul_vecMul,
    ← Matrix.vecMul_vecMul]
  exact congrArg (· ᵥ* (Triangular.inverseLower L).toMatrix) hxy

/-- A symmetric matrix has a factor exactly if it is positive definite. -/
theorem exists_factor?_iff {A : Mat ℝ n n} (hA : A.IsSymmetric) :
    (∃ L, factor? A = some L) ↔ A.toMatrix.PosDef :=
  ⟨fun ⟨_, hL⟩ => posDef_of_factor? hA hL, exists_factor? hA⟩

end Cholesky

end ActiveSet

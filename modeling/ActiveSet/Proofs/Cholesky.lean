import ActiveSet.Proofs.Exact
/-
  Triangular systems and the Cholesky factor in exact arithmetic

  Substitution solves the system whose triangle it reads, provided the other
  triangle is zero and no diagonal entry is. A factor that `factor?` returns
  for a symmetric matrix is lower triangular with a positive diagonal, and its
  product with its transpose is the matrix.

  Both inductions follow the recursions: on the dimension, with the first row
  and column split off. What the solver takes from here is `mul_inverseLower`
  (the basis it sets out with) and `mulVec_solve` (the point).
-/

open Matrix

namespace ActiveSet

/-- Whether the matrix equals its transpose. -/
def Mat.IsSymmetric {n : Nat} (A : Mat ℝ n n) : Prop := ∀ i j, A.entry i j = A.entry j i

theorem Mat.isSymmetric_symmetrized {n : Nat} (A : Mat ℝ n n) : A.symmetrized.IsSymmetric := by
  intro i j
  simp [Mat.symmetrized, add_comm]

theorem Mat.isSymmetric_of_isHermitian {n : Nat} {A : Mat ℝ n n} (h : A.toMatrix.IsHermitian) :
    A.IsSymmetric :=
  fun i j => h.apply j i

/-- The diagonal matrix with the given entries. -/
def Mat.diagonal {n : Nat} (a : Fin n → ℝ) : Mat ℝ n n :=
  Mat.ofFn fun i j => if i = j then a i else 0

@[simp] theorem Mat.entry_diagonal {n : Nat} (a : Fin n → ℝ) (i j : Fin n) :
    (Mat.diagonal a).entry i j = if i = j then a i else 0 := Mat.entry_ofFn ..

theorem Mat.toMatrix_diagonal {n : Nat} (a : Fin n → ℝ) :
    (Mat.diagonal a).toMatrix = Matrix.diagonal a := by
  ext i j
  simp [Matrix.diagonal_apply]

theorem Mat.isSymmetric_diagonal {n : Nat} (a : Fin n → ℝ) : (Mat.diagonal a).IsSymmetric := by
  intro i j
  by_cases hij : i = j <;> simp [hij, Ne.symm]

namespace Triangular

variable {n : Nat}

/-- Whether the entries above the diagonal are zero. -/
def IsLower (L : Mat ℝ n n) : Prop := ∀ i j, i < j → L.entry i j = 0

/-- Whether the entries below the diagonal are zero. -/
def IsUpper (U : Mat ℝ n n) : Prop := ∀ i j, j < i → U.entry i j = 0

theorem byReciprocal_real (x y : ℝ) : byReciprocal x y = x / y := by
  show x * (1 / y) = x / y
  rw [mul_one_div]

theorem IsLower.tail {L : Mat ℝ (n + 1) (n + 1)} (h : IsLower L) : IsLower L.tail := by
  intro i j hij
  simp only [Mat.tail, Mat.entry_ofFn]
  exact h _ _ (Fin.succ_lt_succ_iff.mpr hij)

theorem IsUpper.tail {U : Mat ℝ (n + 1) (n + 1)} (h : IsUpper U) : IsUpper U.tail := by
  intro i j hij
  simp only [Mat.tail, Mat.entry_ofFn]
  exact h _ _ (Fin.succ_lt_succ_iff.mpr hij)

theorem IsLower.transpose {L : Mat ℝ n n} (h : IsLower L) : IsUpper L.transpose := by
  intro i j hij
  simp only [Mat.transpose, Mat.entry_ofFn]
  exact h j i hij

theorem mulVec_succ (A : Mat ℝ (n + 1) (n + 1)) (y : ℝ) (v : Vector ℝ n) (i : Fin n) :
    (A.toMatrix *ᵥ (Vec.cons y v).get) i.succ =
      A.entry i.succ 0 * y + (A.tail.toMatrix *ᵥ v.get) i := by
  simp [Matrix.mulVec, dotProduct, Fin.sum_univ_succ, Mat.tail]

theorem mulVec_first (A : Mat ℝ (n + 1) (n + 1)) (y : ℝ) (v : Vector ℝ n) :
    (A.toMatrix *ᵥ (Vec.cons y v).get) 0 =
      A.entry 0 0 * y + ∑ j : Fin n, A.entry 0 j.succ * v.get j := by
  simp [Matrix.mulVec, dotProduct, Fin.sum_univ_succ]

theorem mulVec_solveLower {quotient : ℝ → ℝ → ℝ} (hq : ∀ x y, quotient x y = x / y)
    (L : Mat ℝ n n) (b : Vector ℝ n) (lower : IsLower L) (diagonal : ∀ i, L.entry i i ≠ 0) :
    L.toMatrix *ᵥ (solveLower quotient L b).get = b.get := by
  induction n with
  | zero => funext i; exact i.elim0
  | succ n ih =>
    have hrest := fun b => ih L.tail b lower.tail (fun i => by
      simpa [Mat.tail] using diagonal i.succ)
    funext i
    simp only [solveLower]
    -- the first row gives the first unknown, the others are the smaller system
    refine Fin.cases ?_ (fun k => ?_) i
    · rw [mulVec_first, hq, mul_div_cancel₀ _ (diagonal 0)]
      simp [lower 0 _ (Fin.succ_pos _)]
    · rw [mulVec_succ, hrest]
      simp

theorem mulVec_solveUpper {quotient : ℝ → ℝ → ℝ} (hq : ∀ x y, quotient x y = x / y)
    (U : Mat ℝ n n) (b : Vector ℝ n) (upper : IsUpper U) (diagonal : ∀ i, U.entry i i ≠ 0) :
    U.toMatrix *ᵥ (solveUpper quotient U b).get = b.get := by
  induction n with
  | zero => funext i; exact i.elim0
  | succ n ih =>
    have hrest := fun b => ih U.tail b upper.tail (fun i => by
      simpa [Mat.tail] using diagonal i.succ)
    funext i
    simp only [solveUpper]
    refine Fin.cases ?_ (fun k => ?_) i
    · rw [mulVec_first, hq, mul_div_cancel₀ _ (diagonal 0), foldr_sub_eq_sum, sub_add_cancel]
    · rw [mulVec_succ, hrest, upper _ _ (Fin.succ_pos k)]
      simp

theorem mul_inverseLower (L : Mat ℝ n n) (lower : IsLower L) (diagonal : ∀ i, L.entry i i ≠ 0) :
    L.toMatrix * (inverseLower L).toMatrix = 1 := by
  -- column by column, the inverse solves the system for a unit vector
  ext i j
  have h := congrFun (mulVec_solveLower byReciprocal_real L (Vec.unit j) lower diagonal) i
  have hunit : (Vec.unit j : Vector ℝ n).get i = (1 : Matrix (Fin n) (Fin n) ℝ) i j := by
    simp [Vec.unit, Matrix.one_apply]
  rw [← hunit, ← h]
  simp [Matrix.mul_apply, Matrix.mulVec, dotProduct, inverseLower, Mat.ofColumns]

/-- The check for a zero on the diagonal. -/
theorem hasZeroPivot_eq_false {T : Mat ℝ n n} :
    hasZeroPivot T = false ↔ ∀ i, T.entry i i ≠ 0 := by
  rw [hasZeroPivot, List.any_eq_false]
  refine ⟨fun h i hi => h i (List.mem_finRange i) ((Scalar.isZero_real _).mpr hi),
    fun h i _ hi => h i ((Scalar.isZero_real _).mp hi)⟩

end Triangular

namespace Cholesky

variable {n : Nat}

theorem entry_border_zero (corner : ℝ) (column : Vector ℝ n) (rest : Mat ℝ n n) :
    (border corner column rest).entry 0 0 = corner := by
  simp [border]

theorem entry_border_top (corner : ℝ) (column : Vector ℝ n) (rest : Mat ℝ n n) (j : Fin n) :
    (border corner column rest).entry 0 j.succ = 0 := by
  simp [border]

theorem entry_border_left (corner : ℝ) (column : Vector ℝ n) (rest : Mat ℝ n n) (i : Fin n) :
    (border corner column rest).entry i.succ 0 = column.get i := by
  simp [border]

theorem entry_border_succ (corner : ℝ) (column : Vector ℝ n) (rest : Mat ℝ n n) (i j : Fin n) :
    (border corner column rest).entry i.succ j.succ = rest.entry i j := by
  simp [border]

/-- One column of the factorization, over any scalars. -/
theorem factor?_step {α : Type} [Scalar α] (A : Mat α (n + 1) (n + 1)) :
    factor? A =
      let corner := Scalar.sqrt (A.entry 0 0)
      let column : Vector α n :=
        Vector.ofFn fun i => Triangular.byReciprocal (A.entry i.succ 0) corner
      if Scalar.le (A.entry 0 0) 0 then none
      else (factor? (complement A column)).map (border corner column) := rfl

/-- With real numbers the column is divided by the root of the pivot. -/
theorem factor?_eq (A : Mat ℝ (n + 1) (n + 1)) :
    factor? A =
      let column : Vector ℝ n :=
        Vector.ofFn fun i => A.entry i.succ 0 / Real.sqrt (A.entry 0 0)
      if A.entry 0 0 ≤ 0 then none
      else (factor? (complement A column)).map (border (Real.sqrt (A.entry 0 0)) column) := by
  rw [factor?_step]
  simp only [Scalar.le_real, decide_eq_true_eq, Triangular.byReciprocal_real, Scalar.sqrt_real]

/-- What a successful factorization is made of: a positive pivot, and a factor of the
complement. -/
theorem factor?_succ {A L : Mat ℝ (n + 1) (n + 1)} (h : factor? A = some L) :
    0 < A.entry 0 0 ∧ ∃ rest : Mat ℝ n n,
      let column : Vector ℝ n :=
        Vector.ofFn fun i => A.entry i.succ 0 / Real.sqrt (A.entry 0 0)
      factor? (complement A column) = some rest ∧
        L = border (Real.sqrt (A.entry 0 0)) column rest := by
  rw [factor?_eq] at h
  dsimp only at h
  split at h
  · cases h
  · next hpos =>
    obtain ⟨rest, hrest, hL⟩ := Option.map_eq_some_iff.mp h
    exact ⟨not_le.mp hpos, rest, hrest, hL.symm⟩

theorem isLower_factor? {A L : Mat ℝ n n} (h : factor? A = some L) : Triangular.IsLower L := by
  induction n with
  | zero => intro i; exact i.elim0
  | succ n ih =>
    obtain ⟨-, rest, hrest, rfl⟩ := factor?_succ h
    intro i j
    refine Fin.cases ?_ (fun i => ?_) i <;> refine Fin.cases ?_ (fun j => ?_) j
    · intro h0; exact absurd h0 (lt_irrefl _)
    · intro _; exact entry_border_top ..
    · intro h0; exact absurd h0 (not_lt.mpr (Fin.zero_le _))
    · intro hij
      rw [entry_border_succ]
      exact ih hrest i j (Fin.succ_lt_succ_iff.mp hij)

theorem diagonal_factor?_pos {A L : Mat ℝ n n} (h : factor? A = some L) (i : Fin n) :
    0 < L.entry i i := by
  induction n with
  | zero => exact i.elim0
  | succ n ih =>
    obtain ⟨hpos, rest, hrest, rfl⟩ := factor?_succ h
    refine Fin.cases ?_ (fun k => ?_) i
    · rw [entry_border_zero]
      exact Real.sqrt_pos.mpr hpos
    · rw [entry_border_succ]
      exact ih hrest k

theorem isSymmetric_complement {A : Mat ℝ (n + 1) (n + 1)} (hA : A.IsSymmetric)
    (column : Vector ℝ n) : (complement A column).IsSymmetric := by
  intro i j
  simp only [complement, Mat.entry_ofFn]
  rw [hA i.succ j.succ, mul_comm]

/-- The factor times its transpose is the matrix. -/
theorem factor?_mul_transpose {A L : Mat ℝ n n} (hA : A.IsSymmetric) (h : factor? A = some L) :
    L.toMatrix * L.toMatrixᵀ = A.toMatrix := by
  induction n with
  | zero => ext i; exact i.elim0
  | succ n ih =>
    obtain ⟨hpos, rest, hrest, rfl⟩ := factor?_succ h
    have hsqrt : Real.sqrt (A.entry 0 0) ≠ 0 := (Real.sqrt_pos.mpr hpos).ne'
    have hrow := ih (isSymmetric_complement hA _) hrest
    ext i j
    rw [Matrix.mul_apply, Fin.sum_univ_succ]
    simp only [Matrix.transpose_apply, Mat.toMatrix_apply]
    -- corner, first row, first column, and what the factor of the complement covers
    refine Fin.cases ?_ (fun i => ?_) i <;> refine Fin.cases ?_ (fun j => ?_) j
    · simp only [entry_border_zero, entry_border_top, zero_mul, Finset.sum_const_zero, add_zero]
      exact Real.mul_self_sqrt hpos.le
    · simp only [entry_border_zero, entry_border_top, entry_border_left, zero_mul,
        Finset.sum_const_zero, add_zero, Vec.get_ofFn]
      rw [mul_div_cancel₀ _ hsqrt, hA]
    · simp only [entry_border_zero, entry_border_top, entry_border_left, mul_zero,
        Finset.sum_const_zero, add_zero, Vec.get_ofFn]
      rw [div_mul_cancel₀ _ hsqrt]
    -- the complement is the matrix less what the first column contributes
    · simp only [entry_border_left, entry_border_succ]
      have hij := congrFun (congrFun hrow i) j
      simp only [Matrix.mul_apply, Matrix.transpose_apply, Mat.toMatrix_apply, complement,
        Mat.entry_ofFn] at hij
      rw [hij]
      ring

theorem mulVec_solve {A L : Mat ℝ n n} (hA : A.IsSymmetric) (h : factor? A = some L)
    (b : Vector ℝ n) : A.toMatrix *ᵥ (solve L b).get = b.get := by
  have hdiag : ∀ i, L.entry i i ≠ 0 := fun i => (diagonal_factor?_pos h i).ne'
  have hdiag' : ∀ i, L.transpose.entry i i ≠ 0 := fun i => by
    simpa [Mat.transpose] using hdiag i
  rw [← factor?_mul_transpose hA h, ← Matrix.mulVec_mulVec, ← Mat.toMatrix_transpose, solve,
    Triangular.mulVec_solveUpper Triangular.byReciprocal_real _ _ (isLower_factor? h).transpose
      hdiag',
    Triangular.mulVec_solveLower Triangular.byReciprocal_real _ _ (isLower_factor? h) hdiag]

/-- The transposed inverse of a lower triangular `L` has the inverse of `L Lᵀ` as its product with
its own transpose. -/
theorem mul_basis_of_isLower {A L : Mat ℝ n n} (lower : Triangular.IsLower L)
    (diagonal : ∀ i, L.entry i i ≠ 0) (product : L.toMatrix * L.toMatrixᵀ = A.toMatrix) :
    let J := (Triangular.inverseLower L).transpose.toMatrix
    A.toMatrix * (J * Jᵀ) = 1 := by
  intro J
  have hinv : L.toMatrix * (Triangular.inverseLower L).toMatrix = 1 :=
    Triangular.mul_inverseLower L lower diagonal
  have hJ : J = (Triangular.inverseLower L).toMatrixᵀ := Mat.toMatrix_transpose _
  have hcancel : L.toMatrixᵀ * J = 1 := by
    rw [hJ, ← Matrix.transpose_mul, mul_eq_one_comm.mp hinv, Matrix.transpose_one]
  calc A.toMatrix * (J * Jᵀ)
      = L.toMatrix * (L.toMatrixᵀ * J) * Jᵀ := by
        rw [← product]
        simp only [Matrix.mul_assoc]
    _ = L.toMatrix * (Triangular.inverseLower L).toMatrix := by
        rw [hcancel, Matrix.mul_one, hJ, Matrix.transpose_transpose]
    _ = 1 := hinv

/-- The basis that a solve sets out with, from the factor of its quadratic term. -/
theorem mul_basis {A L : Mat ℝ n n} (hA : A.IsSymmetric) (h : factor? A = some L) :
    let J := (Triangular.inverseLower L).transpose.toMatrix
    A.toMatrix * (J * Jᵀ) = 1 :=
  mul_basis_of_isLower (isLower_factor? h) (fun i => (diagonal_factor?_pos h i).ne')
    (factor?_mul_transpose hA h)

/-- The unconstrained minimum of a quadratic form without a linear term. -/
theorem solve_zero {A L : Mat ℝ n n} (hA : A.IsSymmetric) (h : factor? A = some L)
    {b : Vector ℝ n} (hb : b.get = 0) : (solve L b).get = 0 := by
  have hsolve := mulVec_solve hA h b
  rw [hb] at hsolve
  rw [← Matrix.one_mulVec (solve L b).get, ← mul_eq_one_comm.mp (mul_basis hA h),
    ← Matrix.mulVec_mulVec, hsolve, Matrix.mulVec_zero]

/-- Real numbers are finite, so the entrance to the factorization refuses nothing else. -/
theorem factor_eq (A : Mat ℝ n n) :
    Dense.factor A = match factor? A with
      | some L => .ok L
      | none => .error .notPositiveDefinite := by
  have hfinite : Dense.allFinite A = true := by
    simp [Dense.allFinite]
  rw [Dense.factor, if_pos hfinite]
  cases factor? A <;> rfl

theorem factor_eq_ok {A L : Mat ℝ n n} : Dense.factor A = .ok L ↔ factor? A = some L := by
  rw [factor_eq]
  cases factor? A <;> simp

/-! ## Diagonal matrices -/

/-- A diagonal matrix of squares has the diagonal of their roots as its factor. -/
theorem factor?_diagonal {a : Fin n → ℝ} (ha : ∀ i, 0 < a i) :
    factor? (Mat.diagonal fun i => a i * a i) = some (Mat.diagonal a) := by
  induction n with
  | zero => rfl
  | succ n ih =>
    have hcorner : (Mat.diagonal fun i => a i * a i).entry 0 0 = a 0 * a 0 := by simp
    have hpos : ¬ a 0 * a 0 ≤ 0 := not_le.mpr (mul_pos (ha 0) (ha 0))
    have hcolumn : (Vector.ofFn fun i : Fin n =>
        (Mat.diagonal fun i => a i * a i).entry i.succ 0 / a 0) = Vec.zero n :=
      Vec.ext_get fun i => by simp [Fin.succ_ne_zero]
    have hrest : complement (Mat.diagonal fun i => a i * a i) (Vec.zero n) =
        Mat.diagonal fun i : Fin n => a i.succ * a i.succ := Mat.ext_entry fun i j => by
      simp [complement]
    have hborder : border (a 0) (Vec.zero n) (Mat.diagonal fun i : Fin n => a i.succ) =
        Mat.diagonal a := Mat.ext_entry fun i j => by
      refine Fin.cases ?_ (fun i => ?_) i <;> refine Fin.cases ?_ (fun j => ?_) j <;>
        simp [border, Fin.succ_ne_zero, (Fin.succ_ne_zero _).symm]
    rw [factor?_eq, hcorner, if_neg hpos, Real.sqrt_mul_self (ha 0).le, hcolumn, hrest,
      ih fun i => ha i.succ, Option.map_some, hborder]

theorem inverseLower_diagonal {a : Fin n → ℝ} (ha : ∀ i, a i ≠ 0) :
    Triangular.inverseLower (Mat.diagonal a) = Mat.diagonal fun i => 1 / a i := by
  have hinverse := Triangular.mul_inverseLower (Mat.diagonal a)
    (fun i j hij => by simp [hij.ne]) fun i => by simpa using ha i
  apply Mat.ext_entry
  intro i j
  have hentry := congrFun (congrFun hinverse i) j
  rw [Mat.toMatrix_diagonal, Matrix.diagonal_mul, Mat.toMatrix_apply, Matrix.one_apply] at hentry
  rw [Mat.entry_diagonal, eq_div_of_mul_eq (ha i) ((mul_comm _ _).trans hentry)]
  split <;> simp

end Cholesky

end ActiveSet

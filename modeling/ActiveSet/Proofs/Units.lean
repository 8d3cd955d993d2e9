import ActiveSet.Proofs.Regauge
/-
  The units of a scaled objective

  Multiplying the objective of a program by `s` multiplies the Cholesky factor
  of its quadratic term by `√s` (`factor?_times`), so the inverse of the factor
  is divided by `√s` and the minimum without constraints stays where it is.
  `Gauge.times` lists what becomes of everything else that a solve computes,
  and `restates_times` says that the two solves set out alike in it. The
  violation that is negligible is multiplied by `√s` (`tolerance_times`).
-/

open Matrix

namespace ActiveSet

variable {n e m : Nat} {s : ℝ}

/-- The units of a solve whose objective is multiplied by `s`. The greatest pivot so far is divided
by `√s` as every pivot is; the one that the pivot scale starts from is not. -/
noncomputable def Gauge.times (hs : 0 < s) : Gauge ℝ where
  image a := a / √s
  primal a := a / s
  dual a := s * a
  Scales r r' := ∃ greatest, 0 ≤ greatest ∧ r = max 1 greatest ∧ r' = max 1 (greatest / √s)
  image_zero := zero_div _
  image_add _ _ := add_div _ _ _
  image_sub _ _ := sub_div _ _ _
  image_neg _ := neg_div _ _
  image_mul _ _ := mul_div_right_comm _ _ _
  mul_image _ _ := mul_div_assoc _ _ _
  image_div_image _ _ := div_div_div_cancel_right₀ (Real.sqrt_pos.mpr hs).ne' _ _
  image_abs a := by
    rw [Scalar.abs_real, Scalar.abs_real, abs_div, abs_of_pos (Real.sqrt_pos.mpr hs)]
  image_hypot a b := by
    have hsum : a / √s * (a / √s) + b / √s * (b / √s) = (a * a + b * b) / s := by
      rw [div_mul_div_comm, div_mul_div_comm, Real.mul_self_sqrt hs.le, add_div]
    rw [Scalar.hypot_real, Scalar.hypot_real, hsum, Real.sqrt_div' _ hs.le]
  isZero_image a := by
    rw [Bool.eq_iff_iff, Scalar.isZero_real, Scalar.isZero_real, div_eq_zero_iff,
      or_iff_left (Real.sqrt_pos.mpr hs).ne']
  primal_zero := zero_div _
  primal_add _ _ := add_div _ _ _
  primal_mul _ _ := mul_div_right_comm _ _ _
  image_mul_image a b := by
    show a / √s * (b / √s) = a * b / s
    rw [div_mul_div_comm, Real.mul_self_sqrt hs.le]
  dual_zero := mul_zero _
  dual_add _ _ := mul_add _ _ _
  dual_sub _ _ := mul_sub _ _ _
  dual_mul _ _ := (mul_assoc _ _ _).symm
  mul_dual _ _ := mul_left_comm _ _ _
  dual_div _ _ := (mul_div_assoc _ _ _).symm
  div_primal a b := by
    show a / (b / s) = s * (a / b)
    rw [div_div_eq_mul_div, mul_comm, mul_div_assoc]
  dual_mul_primal a b := by
    show s * a * (b / s) = a * b
    rw [mul_comm s a, mul_assoc, mul_div_cancel₀ _ hs.ne']
  lt_dual a b := by
    rw [Scalar.lt_real, Scalar.lt_real, decide_eq_decide, mul_lt_mul_iff_right₀ hs]
  isFinite_dual _ := rfl
  isBelowTop_dual _ := rfl
  scales_one := ⟨0, le_refl _, (max_eq_left zero_le_one).symm, by
    rw [zero_div, max_eq_left zero_le_one]⟩
  scales_larger := by
    rintro r r' a ⟨greatest, hpos, rfl, rfl⟩
    refine ⟨max greatest |a|, le_max_of_le_left hpos, ?_, ?_⟩
    · rw [Scalar.larger_real, Scalar.abs_real, max_assoc]
    · rw [Scalar.larger_real, Scalar.abs_real, abs_div, abs_of_pos (Real.sqrt_pos.mpr hs),
        max_assoc, max_div_div_right (Real.sqrt_nonneg s)]

/-! ## Triangular systems -/

theorem Vec.map_cons {α : Type} (f : α → α) (x : α) (v : Vector α n) :
    (Vec.cons x v).map f = Vec.cons (f x) (v.map f) := by
  apply Vec.ext_get
  intro i
  refine Fin.cases ?_ (fun k => ?_) i
  · rw [Vector.get_map, Vec.cons_zero, Vec.cons_zero]
  · rw [Vector.get_map, Vec.cons_succ, Vec.cons_succ, Vector.get_map]

namespace Triangular

variable {r : ℝ} {quotient : ℝ → ℝ → ℝ}

theorem solveLower_times (hq : ∀ x y, quotient x y = x / y) (hr : r ≠ 0) (c : ℝ) (L : Mat ℝ n n)
    (b : Vector ℝ n) :
    solveLower quotient (L.map (r * ·)) (Vec.scale c b) =
      Vec.scale (c / r) (solveLower quotient L b) := by
  induction n with
  | zero => exact Vec.ext_get fun i => i.elim0
  | succ n ih =>
    have hfirst : c * b.get 0 / (r * L.entry 0 0) = c / r * (b.get 0 / L.entry 0 0) :=
      mul_div_mul_comm _ _ _ _
    have hrest : (Vector.ofFn fun i : Fin n =>
        c * b.get i.succ - r * L.entry i.succ 0 * (c / r * (b.get 0 / L.entry 0 0))) =
          Vec.scale c (Vector.ofFn fun i : Fin n =>
            b.get i.succ - L.entry i.succ 0 * (b.get 0 / L.entry 0 0)) := by
      rw [Vec.scale, Vec.map_ofFn]
      congr 1
      funext i
      field_simp
    simp only [solveLower, Vec.scale, Vector.get_map, Mat.entry_map, hq, Mat.tail_map, hfirst]
    rw [hrest, ih, Vec.map_cons]
    rfl

theorem solveUpper_times (hq : ∀ x y, quotient x y = x / y) (hr : r ≠ 0) (c : ℝ) (U : Mat ℝ n n)
    (b : Vector ℝ n) :
    solveUpper quotient (U.map (r * ·)) (Vec.scale c b) =
      Vec.scale (c / r) (solveUpper quotient U b) := by
  induction n with
  | zero => exact Vec.ext_get fun i => i.elim0
  | succ n ih =>
    have htail : (Vector.ofFn fun i : Fin n => c * b.get i.succ) =
        Vec.scale c (Vector.ofFn fun i : Fin n => b.get i.succ) := by
      rw [Vec.scale, Vec.map_ofFn]
    simp only [solveUpper, Vec.scale, Vector.get_map, Mat.entry_map, hq, Mat.tail_map]
    rw [htail, ih, Vec.map_cons]
    generalize solveUpper quotient U.tail (Vector.ofFn fun i => b.get i.succ) = rest
    have hknown : Fin.foldr n
        (fun j t => t - r * U.entry 0 j.succ * (Vec.scale (c / r) rest).get j) (c * b.get 0) =
          c * Fin.foldr n (fun j t => t - U.entry 0 j.succ * rest.get j) (b.get 0) := by
      rw [foldr_sub_eq_sum, foldr_sub_eq_sum, mul_sub, Finset.mul_sum]
      congr 1
      refine Finset.sum_congr rfl fun j _ => ?_
      rw [Vec.get_scale, Pi.smul_apply, smul_eq_mul]
      field_simp
    rw [hknown, mul_div_mul_comm]
    rfl

/-- The inverse of a scaled triangle. -/
theorem inverseLower_times (hr : r ≠ 0) (L : Mat ℝ n n) :
    inverseLower (L.map (r * ·)) = (inverseLower L).map (· / r) := by
  apply Mat.ext_entry
  intro i j
  have hunit : (Vec.unit j : Vector ℝ n) = Vec.scale 1 (Vec.unit j) := by
    apply Vec.ext_get
    intro k
    rw [Vec.get_scale, one_smul]
  rw [Mat.entry_map, inverseLower, inverseLower, Mat.ofColumns, Mat.ofColumns, Mat.entry_ofFn,
    Mat.entry_ofFn, Vec.get_ofFn, Vec.get_ofFn, hunit, solveLower_times byReciprocal_real hr,
    Vec.get_scale, Pi.smul_apply, smul_eq_mul, ← hunit, one_div, inv_mul_eq_div]

end Triangular

/-! ## The Cholesky factor -/

namespace Cholesky

theorem complement_times (hs : 0 ≤ s) (A : Mat ℝ (n + 1) (n + 1)) (column : Vector ℝ n) :
    complement (A.map (s * ·)) (column.map (√s * ·)) = (complement A column).map (s * ·) := by
  apply Mat.ext_entry
  intro i j
  simp only [complement, Mat.entry_ofFn, Mat.entry_map, Vector.get_map]
  rw [mul_mul_mul_comm, Real.mul_self_sqrt hs, mul_sub]

theorem border_times (r corner : ℝ) (column : Vector ℝ n) (rest : Mat ℝ n n) :
    border (r * corner) (column.map (r * ·)) (rest.map (r * ·)) =
      (border corner column rest).map (r * ·) := by
  apply Mat.ext_entry
  intro i j
  rw [Mat.entry_map]
  refine Fin.cases ?_ (fun i => ?_) i <;> refine Fin.cases ?_ (fun j => ?_) j
  · rw [entry_border_zero, entry_border_zero]
  · rw [entry_border_top, entry_border_top, mul_zero]
  · rw [entry_border_left, entry_border_left, Vector.get_map]
  · rw [entry_border_succ, entry_border_succ, Mat.entry_map]

/-- A matrix times `s` has `√s` times the factor. -/
theorem factor?_times (hs : 0 < s) (A : Mat ℝ n n) :
    factor? (A.map (s * ·)) = (factor? A).map fun L => L.map (√s * ·) := by
  induction n with
  | zero => exact congrArg some (Mat.ext_entry fun i => i.elim0)
  | succ n ih =>
    have hcorner : √(s * A.entry 0 0) = √s * √(A.entry 0 0) := Real.sqrt_mul hs.le _
    have hcolumn : (Vector.ofFn fun i : Fin n => s * A.entry i.succ 0 / (√s * √(A.entry 0 0))) =
        (Vector.ofFn fun i : Fin n => A.entry i.succ 0 / √(A.entry 0 0)).map (√s * ·) := by
      rw [Vec.map_ofFn]
      congr 1
      funext i
      rw [mul_div_mul_comm, Real.div_sqrt]
    have hpivot : s * A.entry 0 0 ≤ 0 ↔ A.entry 0 0 ≤ 0 := mul_nonpos_iff_pos_imp_nonpos.trans
      ⟨fun h => h.1 hs, fun h => ⟨fun _ => h, fun _ => hs.le⟩⟩
    rw [factor?_eq, factor?_eq]
    simp only [Mat.entry_map, hcorner, hcolumn, hpivot]
    rw [complement_times hs.le, ih]
    split
    · rfl
    · rw [Option.map_map, Option.map_map]
      congr 1
      funext rest
      exact border_times _ _ _ _

theorem solve_times (hs : 0 < s) (L : Mat ℝ n n) (b : Vector ℝ n) :
    solve (L.map (√s * ·)) (Vec.scale s b) = solve L b := by
  have hr : √s ≠ 0 := (Real.sqrt_pos.mpr hs).ne'
  rw [solve, Triangular.solveLower_times Triangular.byReciprocal_real hr, Mat.transpose_map,
    Triangular.solveUpper_times Triangular.byReciprocal_real hr, Real.div_sqrt, div_self hr, solve]
  apply Vec.ext_get
  intro i
  rw [Vec.get_scale, one_smul]

end Cholesky

/-! ## The problem -/

namespace Problem

/-- The problem with its objective multiplied by `s`. -/
noncomputable def times (s : ℝ) (P : Problem ℝ n e m) : Problem ℝ n e m :=
  { P with
    quadratic := P.quadratic.map (s * ·)
    linear := Vec.scale s P.linear }

/-- A problem is scaled with the data that it is built from. -/
theorem times_ofParts (s : ℝ) (A : Mat ℝ n n) (b : Vector ℝ n) (E I : List (Constraint ℝ n)) :
    ofParts (A.map (s * ·)) (Vec.scale s b) E I = (ofParts A b E I).times s := by
  have hsymmetrized : (A.map (s * ·)).symmetrized = A.symmetrized.map (s * ·) := by
    apply Mat.ext_entry
    intro i j
    simp only [Mat.symmetrized, Mat.entry_ofFn, Mat.entry_map]
    rw [← mul_add, mul_left_comm]
  rw [ofParts, hsymmetrized]
  rfl

theorem isSymmetric_times {P : Problem ℝ n e m} (h : P.quadratic.IsSymmetric) (s : ℝ) :
    (P.times s).quadratic.IsSymmetric := by
  intro i j
  show (P.quadratic.map (s * ·)).entry i j = (P.quadratic.map (s * ·)).entry j i
  rw [Mat.entry_map, Mat.entry_map, h i j]

/-- The solves of a problem and of a multiple of it set out alike. -/
theorem restates_times (hs : 0 < s) (P : Problem ℝ n e m) (L : Mat ℝ n n) :
    P.Restates (Gauge.times hs) (P.times s) L (L.map (√s * ·)) := by
  have hr : √s ≠ 0 := (Real.sqrt_pos.mpr hs).ne'
  refine ⟨rfl, rfl, ?_, Triangular.inverseLower_times hr L, ?_, ?_⟩
  · rw [Bool.eq_iff_iff, ← not_iff_not, Bool.not_eq_true, Bool.not_eq_true,
      Triangular.hasZeroPivot_eq_false, Triangular.hasZeroPivot_eq_false]
    simp only [Mat.entry_map, ne_eq, mul_eq_zero, hr, false_or]
  · exact congrArg Vec.neg (Cholesky.solve_times hs L P.linear)
  · show Scalar.half * Vec.dot (Vec.scale s P.linear) _ = s * (Scalar.half * Vec.dot P.linear _)
    rw [Vec.dot_eq, Vec.dot_eq, Vec.get_scale, smul_dotProduct, smul_eq_mul, mul_left_comm]

/-- The negligible violation for a multiple of a problem. -/
theorem tolerance_times (hs : 0 < s) (P : Problem ℝ n e m) (L : Mat ℝ n n) :
    (P.times s).tolerance (Triangular.inverseLower (L.map (√s * ·))).trace =
      √s * P.tolerance (Triangular.inverseLower L).trace := by
  have hr : √s ≠ 0 := (Real.sqrt_pos.mpr hs).ne'
  have hquadratic : (P.quadratic.map (s * ·)).trace = s * P.quadratic.trace := by
    simp only [Mat.trace, foldl_add_eq_sum, zero_add, Mat.entry_map, Finset.mul_sum]
  have hinverse : ((Triangular.inverseLower L).map (· / √s)).trace =
      (Triangular.inverseLower L).trace / √s := by
    simp only [Mat.trace, foldl_add_eq_sum, zero_add, Mat.entry_map, Finset.sum_div]
  rw [Triangular.inverseLower_times hr, tolerance, tolerance, hinverse]
  show feasibilityScale * (m : ℝ) * Scalar.epsilon * (P.quadratic.map (s * ·)).trace * _ = _
  rw [hquadratic]
  field_simp
  rw [Real.sq_sqrt hs.le]
  ring

end Problem

end ActiveSet

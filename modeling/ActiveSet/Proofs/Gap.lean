import ActiveSet.Proofs.Duality
import ActiveSet.Certificate
/-
  The duality gap of a certified point

  The residuals of a point with multipliers bound how far its objective is
  above that of any feasible point. Along the way to a feasible `y` the
  objective of a convex program changes at least by `(y - x) · g`, with `g`
  the gradient at `x`. The gradient is the combination of the normals up to
  the dual residual, so this product is a sum over the constraints, and each
  term is small for one of three reasons: the multiplier of an equality meets
  a slack that has to be made up, the multiplier of an inequality is hardly
  negative where `y` has slack, and hardly matters where `x` has
  (`gradient_dot_ge`).

  Only one direction of convexity is used, so the quadratic term need not be
  positive definite, and the multipliers may come from anywhere.
-/

open Matrix

namespace ActiveSet

variable {n e m : Nat}

/-- The greatest absolute value is within a bound exactly if all entries are. -/
theorem Vec.maxAbs_le {k : Nat} {v : Vector ℝ k} {t : ℝ} (ht : 0 ≤ t) :
    Vec.maxAbs v ≤ t ↔ ∀ i, |v.get i| ≤ t := by
  have hfold (l : List ℝ) (s : ℝ) :
      l.foldl (fun s x => Scalar.maximum s (Scalar.abs x)) s ≤ t ↔ s ≤ t ∧ ∀ x ∈ l, |x| ≤ t := by
    induction l generalizing s with
    | nil => simp
    | cons x l ih =>
      rw [List.foldl_cons, ih, Scalar.maximum_real, Scalar.abs_real, max_le_iff,
        List.forall_mem_cons, and_assoc]
  rw [Vec.maxAbs, ← Vector.foldl_toList, hfold, Vec.toList_eq_ofFn, and_iff_right ht]
  exact List.forall_mem_ofFn_iff

/-- What it says of each entry that no residual exceeds a tolerance. -/
structure Problem.Certified (P : Problem ℝ n e m) (x : Vector ℝ n) (lam : Vector ℝ e)
    (mu : Vector ℝ m) (tolerance : ℝ) : Prop where
  defect : ∀ i, |(P.defects x).get i| ≤ tolerance
  slack : ∀ i, -tolerance ≤ (P.slacks x).get i
  dual : ∀ i, |(P.stationarity x lam mu).get i| ≤ tolerance
  complementary : ∀ i, |(P.slacks x).get i * mu.get i| ≤ tolerance
  sign : ∀ i, -tolerance ≤ mu.get i

theorem abs_min_zero_le {t s : ℝ} (ht : 0 ≤ t) : |min s 0| ≤ t ↔ -t ≤ s := by
  rw [abs_of_nonpos (min_le_right s 0), neg_le, le_min_iff, and_iff_left (neg_nonpos.mpr ht)]

namespace Problem

variable {P : Problem ℝ n e m} {x y : Vector ℝ n} {lam : Vector ℝ e} {mu : Vector ℝ m}
  {tolerance : ℝ}

theorem within_residuals (htolerance : 0 ≤ tolerance) :
    (P.residuals x lam mu).within tolerance = true ↔ P.Certified x lam mu tolerance := by
  have hwithin : (P.residuals x lam mu).within tolerance = true ↔
      Vec.maxAbs (P.defects x) ≤ tolerance ∧
      Vec.maxAbs ((P.slacks x).map fun s => Scalar.minimum s 0) ≤ tolerance ∧
      Vec.maxAbs (P.stationarity x lam mu) ≤ tolerance ∧
      Vec.maxAbs (Vector.zipWith (· * ·) (P.slacks x) mu) ≤ tolerance ∧
      Vec.maxAbs (mu.map fun u => Scalar.minimum u 0) ≤ tolerance := by
    simp [Residuals.within, Residuals.toList, residuals]
  have hproduct (i : Fin m) : (Vector.zipWith (· * ·) (P.slacks x) mu).get i =
      (P.slacks x).get i * mu.get i := by
    simp [Vec.get_eq_getElem]
  simp only [hwithin, Vec.maxAbs_le htolerance, Vector.get_map, Scalar.minimum_real,
    abs_min_zero_le htolerance, hproduct]
  exact ⟨fun ⟨h₁, h₂, h₃, h₄, h₅⟩ => ⟨h₁, h₂, h₃, h₄, h₅⟩,
    fun h => ⟨h.defect, h.slack, h.dual, h.complementary, h.sign⟩⟩

theorem Certified.feasible (h : P.Certified x lam mu 0) : P.Feasible x :=
  ⟨fun i => abs_nonpos_iff.mp (h.defect i), fun i => neg_zero (G := ℝ) ▸ h.slack i⟩

/-- The objective of a convex program lies above its tangents. -/
theorem objective_add_le (hsemidefinite : P.quadratic.toMatrix.PosSemidef) (x y : Vector ℝ n) :
    P.objective x + (y.get - x.get) ⬝ᵥ (P.gradient x).get ≤ P.objective y := by
  have hsymmetric : P.quadratic.IsSymmetric :=
    Mat.isSymmetric_of_isHermitian hsemidefinite.isHermitian
  have hvalue := objective_expand hsymmetric x y
  have hnonneg : 0 ≤ (y.get - x.get) ⬝ᵥ P.quadratic.toMatrix *ᵥ (y.get - x.get) :=
    hsemidefinite.dotProduct_mulVec_nonneg _
  linarith

/-- The gradient along a step, constraint by constraint. -/
theorem dot_gradient (x y : Vector ℝ n) (lam : Vector ℝ e) (mu : Vector ℝ m) :
    (y.get - x.get) ⬝ᵥ (P.gradient x).get =
      (y.get - x.get) ⬝ᵥ (P.stationarity x lam mu).get +
        ∑ i, lam.get i * ((P.defects y).get i - (P.defects x).get i) +
        ∑ i, mu.get i * ((P.slacks y).get i - (P.slacks x).get i) := by
  have hcombine {k : Nat} (constraints : Vector (Constraint ℝ n) k) (weights : Vector ℝ k) :
      (y.get - x.get) ⬝ᵥ (combine constraints weights).get =
        ∑ i, weights.get i * ((constraints.get i).slack y - (constraints.get i).slack x) := by
    rw [get_combine, dotProduct_sum]
    apply Finset.sum_congr rfl
    intro i _
    rw [dotProduct_smul, smul_eq_mul, Constraint.dot_normal]
  have hgradient : (P.gradient x).get = (P.stationarity x lam mu).get +
      (combine P.equalities lam).get + (combine P.inequalities mu).get := by
    rw [stationarity, Vec.get_sub, Vec.get_sub]
    abel
  rw [hgradient, dotProduct_add, dotProduct_add, hcombine, hcombine]
  simp only [get_defects, Iterate.get_slacks]

/-- An inner product is at most the sum of the entries of one factor times a bound for the
other. -/
theorem neg_dot_le {u s : Fin n → ℝ} {t : ℝ} (hs : ∀ i, |s i| ≤ t) :
    -(u ⬝ᵥ s) ≤ t * ∑ i, |u i| := by
  rw [dotProduct, ← Finset.sum_neg_distrib, Finset.mul_sum]
  apply Finset.sum_le_sum
  intro i _
  calc -(u i * s i) ≤ |u i * s i| := neg_le_abs _
    _ = |s i| * |u i| := by rw [abs_mul, mul_comm]
    _ ≤ t * |u i| := mul_le_mul_of_nonneg_right (hs i) (abs_nonneg _)

/-- Towards a feasible point the gradient falls by no more than the tolerance allows. -/
theorem Certified.neg_dot_gradient_le (h : P.Certified x lam mu tolerance) (hy : P.Feasible y) :
    -((y.get - x.get) ⬝ᵥ (P.gradient x).get) ≤
      tolerance * (∑ i, |y.get i - x.get i| + ∑ i, |lam.get i| + m + ∑ i, (P.slacks y).get i) := by
  have hdual : -((y.get - x.get) ⬝ᵥ (P.stationarity x lam mu).get) ≤
      tolerance * ∑ i, |y.get i - x.get i| := neg_dot_le h.dual
  have hequalities : -∑ i, lam.get i * ((P.defects y).get i - (P.defects x).get i) ≤
      tolerance * ∑ i, |lam.get i| := by
    have hslack : ∀ i, |(P.defects y).get i - (P.defects x).get i| ≤ tolerance := by
      intro i
      rw [hy.equalities i, zero_sub, abs_neg]
      exact h.defect i
    exact neg_dot_le hslack
  -- what `x` has of slack its multiplier cancels, and what `y` has the multiplier's sign bounds
  have hinequalities : -∑ i, mu.get i * ((P.slacks y).get i - (P.slacks x).get i) ≤
      tolerance * (m + ∑ i, (P.slacks y).get i) := by
    have hterm (i : Fin m) : -(mu.get i * ((P.slacks y).get i - (P.slacks x).get i)) ≤
        tolerance + tolerance * (P.slacks y).get i := by
      have hx := (abs_le.mp (h.complementary i)).2
      have hsign := mul_le_mul_of_nonneg_right (h.sign i) (hy.inequalities i)
      linarith
    have hsum := Finset.sum_le_sum fun (i : Fin m) (_ : i ∈ Finset.univ) => hterm i
    rw [Finset.sum_neg_distrib, Finset.sum_add_distrib, Finset.sum_const, Finset.card_univ,
      Fintype.card_fin, nsmul_eq_mul, ← Finset.mul_sum] at hsum
    linarith
  rw [dot_gradient x y lam mu]
  linarith

/-- No feasible point is better than a certified one by more than the tolerance allows. -/
theorem Certified.objective_le (hsemidefinite : P.quadratic.toMatrix.PosSemidef)
    (h : P.Certified x lam mu tolerance) (hy : P.Feasible y) :
    P.objective x ≤ P.objective y + tolerance *
      (∑ i, |y.get i - x.get i| + ∑ i, |lam.get i| + m + ∑ i, (P.slacks y).get i) := by
  have htangent := objective_add_le hsemidefinite x y
  have hgradient := h.neg_dot_gradient_le hy
  linarith

/-- The line with the equality `x = 1` and the inequality `x ≥ 0`. -/
noncomputable def mark : Problem ℝ 1 1 1 :=
  nearest 1 (.singleton ⟨.singleton 1, 1⟩) (.singleton ⟨.singleton 1, 0⟩)

theorem posSemidef_mark : mark.quadratic.toMatrix.PosSemidef := by
  show (Mat.diagonal fun _ => 1 / 1 * (1 / 1)).toMatrix.PosSemidef
  rw [Mat.toMatrix_diagonal]
  exact Matrix.PosSemidef.diagonal fun _ => by norm_num

/-- The point `5/4` with the multiplier `5/4` for the equality. -/
theorem certified_mark : mark.Certified (.singleton (5 / 4)) (.singleton (5 / 4))
    (Vec.zero 1) (1 / 4) := by
  have hslack (c : ℝ) : (⟨.singleton 1, c⟩ : Constraint ℝ 1).slack (.singleton (5 / 4)) =
      5 / 4 - c := by
    rw [Constraint.slack, Vec.dot_eq]
    show (∑ i : Fin 1, 1 * (5 / 4 : ℝ)) - c = _
    rw [Fin.sum_univ_one, one_mul]
  have hdefect : (mark.defects (.singleton (5 / 4))).get 0 = 1 / 4 := by
    rw [get_defects]
    exact (hslack 1).trans (by norm_num)
  have hslacks : (mark.slacks (.singleton (5 / 4))).get 0 = 5 / 4 := by
    rw [Iterate.get_slacks]
    exact (hslack 0).trans (by norm_num)
  have hgradient : (mark.gradient (.singleton (5 / 4))).get 0 = 5 / 4 := by
    rw [get_gradient]
    show ((Mat.diagonal fun _ : Fin 1 => (1 : ℝ) / 1 * (1 / 1)).toMatrix *ᵥ _) 0 +
      (Vec.zero 1 : Vector ℝ 1).get 0 = _
    rw [Mat.toMatrix_diagonal, Matrix.mulVec_diagonal, Vec.get_zero, add_zero]
    show (1 : ℝ) / 1 * (1 / 1) * (5 / 4) = 5 / 4
    norm_num
  have hcombine (c : ℝ) (w : Vector ℝ 1) :
      (combine (.singleton (⟨.singleton 1, c⟩ : Constraint ℝ 1)) w).get 0 = w.get 0 := by
    rw [get_combine, Fin.sum_univ_one]
    exact mul_one _
  have hstationarity : (mark.stationarity (.singleton (5 / 4)) (.singleton (5 / 4))
      (Vec.zero 1)).get 0 = 0 := by
    rw [stationarity, Vec.get_sub, Vec.get_sub, Pi.sub_apply, Pi.sub_apply, hgradient,
      mark, nearest, hcombine, hcombine, Vec.get_zero, sub_zero]
    exact sub_self _
  refine ⟨Fin.forall_fin_one.mpr ?_, Fin.forall_fin_one.mpr ?_, Fin.forall_fin_one.mpr ?_,
    Fin.forall_fin_one.mpr ?_, Fin.forall_fin_one.mpr ?_⟩
  · rw [hdefect]
    norm_num
  · rw [hslacks]
    norm_num
  · rw [hstationarity]
    norm_num
  · rw [Vec.get_zero, mul_zero]
    norm_num
  · rw [Vec.get_zero]
    norm_num

end Problem

namespace Program

variable {program : Program ℝ} {x : Nested ℝ} {lam mu : Option (Nested ℝ)}

/-- The point and the multipliers that arrays denote. -/
structure Denotes (program : Program ℝ) (x : Nested ℝ) (lam mu : Option (Nested ℝ))
    (point : Vector ℝ program.dimension) (equality : Vector ℝ program.equalityCount)
    (inequality : Vector ℝ program.inequalityCount) : Prop where
  point : x.tensor.map (·.flat? program.dimension) = .ok (some point)
  equality : multipliers program.equalityCount lam = .ok (some equality)
  inequality : multipliers program.inequalityCount mu = .ok (some inequality)

/-- Missing multipliers count as zero. -/
theorem multipliers_none (k : Nat) (values : Vector ℝ k) :
    multipliers k none = .ok (some values) ↔ values = Vec.zero k := by
  rw [multipliers, Except.ok.injEq, Option.some.injEq]
  exact eq_comm

/-- The residuals of arrays are those of the point and the multipliers that they denote. -/
theorem residuals_eq_ok {r : Residuals ℝ} : program.residuals x lam mu = .ok r ↔
    ∃ point equality inequality, program.Denotes x lam mu point equality inequality ∧
      program.problem.residuals point equality inequality = r := by
  constructor
  · intro h
    obtain ⟨t, ht, h⟩ := ok_of_bind h
    cases hpoint : t.flat? program.dimension with
    | none =>
      rw [hpoint] at h
      cases h
    | some point =>
      rw [hpoint] at h
      obtain ⟨equality, hequality, h⟩ := ok_of_bind h
      obtain ⟨inequality, hinequality, h⟩ := ok_of_bind h
      match equality, inequality, h with
      | some equality, some inequality, h =>
        cases h
        refine ⟨point, equality, inequality, ⟨?_, hequality, hinequality⟩, rfl⟩
        rw [ht, ← hpoint]
        rfl
  · rintro ⟨point, equality, inequality, ⟨hpoint, hequality, hinequality⟩, rfl⟩
    cases ht : x.tensor with
    | error fault =>
      rw [ht] at hpoint
      cases hpoint
    | ok t =>
      rw [ht] at hpoint
      have hflat : t.flat? program.dimension = some point := Except.ok.inj hpoint
      simp only [residuals, ht, Except.bind, bind, hflat, hequality, hinequality]
      rfl

/-- A point whose residuals are within a tolerance violates no constraint by more, and no feasible
point is better by more than the tolerance times the distance, the multipliers of the equalities,
the number of inequalities and the slack of that point. With no tolerance the point is a minimum. -/
theorem objective_le_of_within (hsemidefinite : program.problem.quadratic.toMatrix.PosSemidef)
    {tolerance : ℝ} (htolerance : 0 ≤ tolerance)
    (hcheck : (program.residuals x lam mu).map (·.within tolerance) = .ok true) :
    ∃ point equality inequality, program.Denotes x lam mu point equality inequality ∧
      (lam = none → equality = Vec.zero _) ∧ (mu = none → inequality = Vec.zero _) ∧
      (∀ i, |(program.problem.defects point).get i| ≤ tolerance) ∧
      (∀ i, -tolerance ≤ (program.problem.slacks point).get i) ∧
      (∀ y, program.problem.Feasible y →
        program.problem.objective point ≤ program.problem.objective y + tolerance *
          (∑ i, |y.get i - point.get i| + ∑ i, |equality.get i| + program.inequalityCount +
            ∑ i, (program.problem.slacks y).get i)) ∧
      (tolerance = 0 → program.problem.Feasible point ∧ ∀ y, program.problem.Feasible y →
        program.problem.objective point ≤ program.problem.objective y) := by
  cases hresiduals : program.residuals x lam mu with
  | error fault =>
    rw [hresiduals] at hcheck
    cases hcheck
  | ok r =>
    rw [hresiduals] at hcheck
    obtain ⟨point, equality, inequality, hdenotes, rfl⟩ := residuals_eq_ok.mp hresiduals
    have hcertified : program.problem.Certified point equality inequality tolerance :=
      (Problem.within_residuals htolerance).mp (Except.ok.inj hcheck)
    have hobjective : ∀ y, program.problem.Feasible y → _ := fun y hy =>
      hcertified.objective_le hsemidefinite hy
    refine ⟨point, equality, inequality, hdenotes, ?_, ?_, hcertified.defect, hcertified.slack,
      hobjective, ?_⟩
    · rintro rfl
      exact (multipliers_none _ _).mp hdenotes.equality
    · rintro rfl
      exact (multipliers_none _ _).mp hdenotes.inequality
    · rintro rfl
      refine ⟨hcertified.feasible, fun y hy => ?_⟩
      have hy := hobjective y hy
      rwa [zero_mul, add_zero] at hy

/-- The point `5/4` passes the check with tolerance `1/4`, although the multipliers of the
inequality are missing. -/
theorem objective_le_of_within_mark :
    let program : Program ℝ := ⟨Problem.mark⟩
    let x : Nested ℝ := .list [.number (5 / 4)]
    program.problem.quadratic.toMatrix.PosSemidef ∧ (0 : ℝ) ≤ 1 / 4 ∧
      (program.residuals x (some x) none).map (·.within (1 / 4)) = .ok true ∧
      ∃ point equality inequality, program.Denotes x (some x) none point equality inequality ∧
        inequality = Vec.zero 1 ∧ ∀ y, program.problem.Feasible y →
          program.problem.objective point ≤ program.problem.objective y + 1 / 4 *
            (∑ i, |y.get i - point.get i| + ∑ i, |equality.get i| + (1 : Nat) +
              ∑ i, (program.problem.slacks y).get i) := by
  intro program x
  have htolerance : (0 : ℝ) ≤ 1 / 4 := by norm_num
  have hcheck : (program.residuals x (some x) none).map (·.within (1 / 4)) = .ok true := by
    have hresiduals : program.residuals x (some x) none =
        .ok (Problem.mark.residuals (.singleton (5 / 4)) (.singleton (5 / 4)) (Vec.zero 1)) := rfl
    rw [hresiduals]
    exact congrArg Except.ok ((Problem.within_residuals htolerance).mpr Problem.certified_mark)
  obtain ⟨point, equality, inequality, hdenotes, -, hmissing, -, -, hobjective, -⟩ :=
    objective_le_of_within Problem.posSemidef_mark htolerance hcheck
  exact ⟨Problem.posSemidef_mark, htolerance, hcheck, point, equality, inequality, hdenotes,
    hmissing rfl, hobjective⟩

end Program

end ActiveSet

import ActiveSet.Proofs.LeastSquares
import ActiveSet.Proofs.Unconstrained
/-
  Fits of polynomials

  The coefficients of a fit are those of a polynomial (`polynomialOf`), and a
  row of the design matrix evaluates it at a point. The quadratic form of the
  fit at some coefficients is therefore the weighted sum of the squared values
  of their polynomial (`form_gram_scaled`). It vanishes exactly if the
  polynomial does at every point, and a polynomial other than zero has no more
  zeros than its degree: there is one to vanish at all points if and only if
  they have at most as many values as the order (`exists_vanishing_iff`). So
  this decides whether the matrix of the fit is positive definite.

  Otherwise the fit is the only polynomial of that degree with the least
  error. With one point more than the order there is an interpolating one, so
  the least error is zero.
-/

open Matrix Polynomial

namespace ActiveSet

variable {N order : Nat}

/-! ## Powers -/

theorem getElem?_multiples (t x : ℝ) {k i : Nat} (hi : i < k) :
    (multiples t k x)[i]? = some (x * t ^ i) := by
  induction k generalizing x i with
  | zero => exact absurd hi (Nat.not_lt_zero i)
  | succ k ih =>
    cases i with
    | zero => simp [multiples]
    | succ i =>
      rw [multiples, List.getElem?_cons_succ, ih (x * t) (Nat.lt_of_succ_lt_succ hi)]
      congr 1
      ring

/-- The powers are powers. -/
theorem get_powers (t : ℝ) (i : Fin (order + 1)) : (powers t order).get i = t ^ i.val := by
  have hentry : (1 :: multiples t order t)[i.val]? = some (t ^ i.val) := by
    refine Fin.cases ?_ (fun i => ?_) i
    · simp
    · rw [Fin.val_succ, List.getElem?_cons_succ, getElem?_multiples t t i.isLt, pow_succ']
  have hget : (1 :: multiples t order t)[i.val]? = some ((powers t order).get i) :=
    List.getElem?_eq_getElem _
  exact Option.some.inj (hget.symm.trans hentry)

theorem entry_polynomialDesign (points : Vector ℝ N) (j : Fin N) (i : Fin (order + 1)) :
    (polynomialDesign points order).entry j i = points.get j ^ i.val := by
  rw [← get_powers, polynomialDesign, Mat.entry, Vector.get_map]

/-! ## Polynomials as vectors -/

/-- The polynomial with the given coefficients, the lowest first. -/
noncomputable def polynomialOf (x : Fin (order + 1) → ℝ) : ℝ[X] :=
  (degreeLTEquiv ℝ (order + 1)).symm x

section PolynomialOf

variable (x : Fin (order + 1) → ℝ)

theorem coeff_polynomialOf (i : Fin (order + 1)) : (polynomialOf x).coeff i = x i :=
  congrFun ((degreeLTEquiv ℝ (order + 1)).apply_symm_apply x) i

theorem natDegree_polynomialOf_le : (polynomialOf x).natDegree ≤ order := by
  have hmem : polynomialOf x ∈ degreeLT ℝ (order + 1) := ((degreeLTEquiv ℝ (order + 1)).symm x).2
  rw [degreeLT_succ_eq_degreeLE, mem_degreeLE] at hmem
  exact natDegree_le_iff_degree_le.mpr hmem

theorem eval_polynomialOf (t : ℝ) : (polynomialOf x).eval t = ∑ i, x i * t ^ i.val := by
  have heval := eval_eq_sum_degreeLTEquiv ((degreeLTEquiv ℝ (order + 1)).symm x).2 t
  rwa [Subtype.coe_eta, LinearEquiv.apply_symm_apply] at heval

end PolynomialOf

/-- Every polynomial of no greater degree has its coefficients. -/
theorem exists_polynomialOf {q : ℝ[X]} (hq : q.natDegree ≤ order) :
    ∃ x : Vector ℝ (order + 1), polynomialOf x.get = q := by
  have hmem : q ∈ degreeLT ℝ (order + 1) := by
    rw [degreeLT_succ_eq_degreeLE, mem_degreeLE]
    exact natDegree_le_iff_degree_le.mp hq
  refine ⟨Vector.ofFn (degreeLTEquiv ℝ (order + 1) ⟨q, hmem⟩), ?_⟩
  have hget : (Vector.ofFn (degreeLTEquiv ℝ (order + 1) ⟨q, hmem⟩)).get =
      degreeLTEquiv ℝ (order + 1) ⟨q, hmem⟩ := funext fun i => Vec.get_ofFn _ i
  rw [hget, polynomialOf, LinearEquiv.symm_apply_apply]

/-- The values of points, each once. -/
noncomputable def valuesOf (points : Vector ℝ N) : Finset ℝ := Finset.univ.image points.get

/-- A polynomial that is not zero and vanishes at all points exists exactly if they have at most as
many values as its degree may be. -/
theorem exists_vanishing_iff (points : Vector ℝ N) :
    (∃ x : Fin (order + 1) → ℝ, x ≠ 0 ∧ ∀ j, (polynomialOf x).eval (points.get j) = 0) ↔
      (valuesOf points).card ≤ order := by
  constructor
  · rintro ⟨x, hx, hzero⟩
    by_contra hmore
    have hnone : polynomialOf x = 0 := by
      refine eq_zero_of_natDegree_lt_card_of_eval_eq_zero' _ (valuesOf points) ?_
        ((natDegree_polynomialOf_le x).trans_lt (not_le.mp hmore))
      intro t ht
      obtain ⟨j, -, rfl⟩ := Finset.mem_image.mp ht
      exact hzero j
    refine hx (funext fun i => ?_)
    rw [← coeff_polynomialOf x i, hnone, coeff_zero]
    rfl
  · intro hfew
    -- the product of the linear factors
    have hdegree : (∏ t ∈ valuesOf points, (X - C t)).natDegree ≤ order := by
      rw [natDegree_finsetProd_X_sub_C_eq_card]
      exact hfew
    obtain ⟨x, hx⟩ := exists_polynomialOf hdegree
    refine ⟨x.get, fun hzero => ?_, fun j => ?_⟩
    · have hnone : polynomialOf x.get = 0 := by
        rw [polynomialOf, hzero, map_zero]
        rfl
      exact (monic_prod_X_sub_C id (valuesOf points)).ne_zero (hx.symm.trans hnone)
    · rw [hx, eval_prod]
      refine Finset.prod_eq_zero (Finset.mem_image_of_mem points.get (Finset.mem_univ j)) ?_
      simp

/-! ## Fits without regions -/

namespace Observations

variable {p : Nat} {o : Observations ℝ N p} {weights : Option (Vector ℝ N)}

theorem form_gram (x : Fin p → ℝ) : o.gram.form x = ∑ j, (∑ i, o.design.entry j i * x i) ^ 2 := by
  calc o.gram.form x = o.design.toMatrix *ᵥ x ⬝ᵥ o.design.toMatrix *ᵥ x := by
        rw [Mat.form, toMatrix_gram, ← Matrix.mulVec_mulVec, Matrix.dotProduct_mulVec,
          Matrix.vecMul_transpose]
    _ = ∑ j, (∑ i, o.design.entry j i * x i) ^ 2 := Finset.sum_congr rfl fun j _ => (sq _).symm

/-- The quadratic form of a fit is the weighted sum of the squares of what the rows give. -/
theorem form_gram_scaled (hpos : ∀ w ∈ weights, ∀ j, 0 < w.get j) (x : Fin p → ℝ) :
    (o.scaled weights).gram.form x =
      ∑ j, weight weights j * (∑ i, o.design.entry j i * x i) ^ 2 := by
  rw [form_gram]
  cases weights with
  | none => exact Finset.sum_congr rfl fun j _ => (one_mul _).symm
  | some w =>
    refine Finset.sum_congr rfl fun j _ => ?_
    rw [scaled, row_weighted, mul_pow, Real.sq_sqrt (hpos w rfl j).le]
    rfl

theorem weight_pos (hpos : ∀ w ∈ weights, ∀ j, 0 < w.get j) (j : Fin N) :
    0 < weight weights j := by
  cases weights with
  | none => exact one_pos
  | some w => exact hpos w rfl j

/-- A weighted sum of squares is not negative. -/
theorem sum_weighted_sq_nonneg (hpos : ∀ w ∈ weights, ∀ j, 0 < w.get j) (f : Fin N → ℝ) :
    0 ≤ ∑ j, weight weights j * f j ^ 2 :=
  Finset.sum_nonneg fun j _ => mul_nonneg (weight_pos hpos j).le (sq_nonneg _)

/-- It is zero only if everything that is squared is. -/
theorem sum_weighted_sq_eq_zero_iff (hpos : ∀ w ∈ weights, ∀ j, 0 < w.get j) (f : Fin N → ℝ) :
    ∑ j, weight weights j * f j ^ 2 = 0 ↔ ∀ j, f j = 0 := by
  rw [Finset.sum_eq_zero_iff_of_nonneg fun j _ =>
    mul_nonneg (weight_pos hpos j).le (sq_nonneg (f j))]
  refine ⟨fun hzero j => ?_, fun hzero j _ => by rw [hzero j]; ring⟩
  have hsquare := (mul_eq_zero.mp (hzero j (Finset.mem_univ j))).resolve_left
    (weight_pos hpos j).ne'
  exact (pow_eq_zero_iff two_ne_zero).mp hsquare

/-- The matrix of a fit is positive definite unless some coefficients, not all zero, give zero in
every row. -/
theorem not_posDef_scaled_iff (hpos : ∀ w ∈ weights, ∀ j, 0 < w.get j) :
    ¬ (o.scaled weights).gram.symmetrized.toMatrix.PosDef ↔
      ∃ x : Fin p → ℝ, x ≠ 0 ∧ ∀ j, ∑ i, o.design.entry j i * x i = 0 := by
  rw [Mat.not_posDef_symmetrized_iff]
  refine exists_congr fun x => and_congr_right fun _ => ?_
  rw [form_gram_scaled hpos, (sum_weighted_sq_nonneg hpos _).ge_iff_eq',
    sum_weighted_sq_eq_zero_iff hpos]

variable {limit : Nat}

theorem outcome_of_indefinite (h : ¬ o.gram.symmetrized.toMatrix.PosDef) :
    (o.fitOver .empty limit).outcome = .error .notPositiveDefinite := by
  let program : Program ℝ := ⟨o.problem .empty⟩
  have hguess : program.Guesses none := program.guesses_none
  have hsolve : (program.solve none limit none).outcome = .error .notPositiveDefinite :=
    Program.outcome_of_indefinite (Mat.isSymmetric_symmetrized o.gram) hguess
      (Int.natCast_nonneg limit) h
  exact congrArg (Except.bind · o.answer) hsolve

/-- Over all coefficients a fit gives those with the least residual sum, which no others have. -/
theorem exists_least_of_definite (h : o.gram.symmetrized.toMatrix.PosDef) :
    ∃ answer : Solution ℝ p 0 0, (o.fitOver .empty limit).outcome = .ok answer ∧
      answer.status = .proper ∧ answer.value = o.residualSum answer.point ∧
      IsLeastAt o.residualSum answer.point := by
  let program : Program ℝ := ⟨o.problem .empty⟩
  have hguess : program.Guesses none := program.guesses_none
  obtain ⟨s, hs, hproper, -, hleast⟩ : ∃ s, (program.solve none limit none).outcome = .ok s ∧
      s.status = .proper ∧ s.value = program.problem.objective s.point ∧
      IsLeastAt program.problem.objective s.point :=
    Program.exists_minimum_of_free (Mat.isSymmetric_symmetrized o.gram) rfl hguess
      (Int.natCast_nonneg limit) h
  refine ⟨{ s with value := o.residualSum s.point }, ?_, hproper, rfl, fun y => ?_⟩
  · exact (congrArg (Except.bind · o.answer) hs).trans (if_pos hproper)
  · -- the residual sum is twice the objective, and a number
    obtain ⟨hle, hunique⟩ := hleast y
    simp only [residualSum_eq_objective o .empty]
    exact ⟨by linarith, fun heq => hunique (by linarith)⟩

end Observations

/-! ## Fits of polynomials -/

open Observations

/-- The sum of the squared errors of a polynomial, each times the weight of its point. -/
noncomputable def polynomialError (points observed : Vector ℝ N) (weights : Option (Vector ℝ N))
    (q : ℝ[X]) : ℝ :=
  ∑ j, weight weights j * (observed.get j - q.eval (points.get j)) ^ 2

section Fit

variable {t y : Vector ℝ N} {weights : Option (Vector ℝ N)}

/-- A row of the design matrix evaluates a polynomial. -/
theorem row_polynomialDesign (x : Fin (order + 1) → ℝ) (j : Fin N) :
    ∑ i, (polynomialDesign t order).entry j i * x i = (polynomialOf x).eval (t.get j) := by
  rw [eval_polynomialOf]
  exact Finset.sum_congr rfl fun i _ => by rw [entry_polynomialDesign, mul_comm]

theorem squaredError_polynomialDesign (x : Vector ℝ (order + 1)) :
    (⟨polynomialDesign t order, y⟩ : Observations ℝ N (order + 1)).squaredError weights x =
      polynomialError t y weights (polynomialOf x.get) :=
  Finset.sum_congr rfl fun j _ => by rw [row_polynomialDesign]

/-- A polynomial fit is refused exactly at as many values of the points as its order, or fewer. -/
theorem not_posDef_polynomialDesign_iff (hpos : ∀ w ∈ weights, ∀ j, 0 < w.get j) :
    ¬ ((⟨polynomialDesign t order, y⟩ : Observations ℝ N (order + 1)).scaled
        weights).gram.symmetrized.toMatrix.PosDef ↔ (valuesOf t).card ≤ order := by
  rw [not_posDef_scaled_iff hpos, ← exists_vanishing_iff]
  simp only [row_polynomialDesign]

/-- One more point than the order, all of them different, have a polynomial through them. -/
theorem exists_interpolating (hvalues : order < (valuesOf t).card) (hsize : N = order + 1)
    (y : Vector ℝ N) : ∃ q : ℝ[X], q.natDegree ≤ order ∧ ∀ j, q.eval (t.get j) = y.get j := by
  have hcard : (Finset.univ.image t.get).card = (Finset.univ : Finset (Fin N)).card := by
    have hle := Finset.card_image_le (s := Finset.univ) (f := t.get)
    rw [Finset.card_univ, Fintype.card_fin] at hle ⊢
    exact le_antisymm hle (hsize ▸ hvalues)
  have hinjective : Set.InjOn t.get (Finset.univ : Finset (Fin N)) :=
    Finset.card_image_iff.mp hcard
  refine ⟨Lagrange.interpolate Finset.univ t.get y.get, ?_, fun j =>
    Lagrange.eval_interpolate_at_node y.get hinjective (Finset.mem_univ j)⟩
  have hdegree := Lagrange.degree_interpolate_lt y.get hinjective
  have hcount : (Finset.univ : Finset (Fin N)).card = order + 1 := by
    rw [Finset.card_univ, Fintype.card_fin, hsize]
  rw [hcount, ← mem_degreeLT, degreeLT_succ_eq_degreeLE, mem_degreeLE] at hdegree
  exact natDegree_le_iff_degree_le.mpr hdegree

/-- A polynomial without error goes through all points. -/
theorem polynomialError_eq_zero_iff (hpos : ∀ w ∈ weights, ∀ j, 0 < w.get j) (q : ℝ[X]) :
    polynomialError t y weights q = 0 ↔ ∀ j, q.eval (t.get j) = y.get j := by
  rw [polynomialError, sum_weighted_sq_eq_zero_iff hpos]
  exact forall_congr' fun j => sub_eq_zero.trans eq_comm

/-- The points are in the design matrix in their order, whatever the shape of their array. -/
theorem polynomialDesignOf_of_lists {points : Nested ℝ} (h : points.Lists t) (order : Nat) :
    polynomialDesignOf points order = .ok (Tensor.ofMat (polynomialDesign t order)) := by
  obtain ⟨tensor, htensor, hflat⟩ := h.exists_flat
  have hdesign : Tensor.ofMat (polynomialDesign tensor.flat order) =
      Tensor.ofMat (polynomialDesign t order) :=
    congrArg (fun v : (k : Nat) × Vector ℝ k => Tensor.ofMat (polynomialDesign v.2 order)) hflat
  simp only [polynomialDesignOf, htensor, bind, Except.bind]
  rw [if_neg (by omega)]
  exact congrArg Except.ok hdesign

/-- Design matrices of polynomials are accepted with positive weights, or none. -/
theorem ofInput_polynomialDesign {observed : Nested ℝ} (hobserved : observed.Lists y)
    {input : Option (Nested ℝ)}
    (hweights : Option.Rel (fun w input => Nested.Lists input w) weights input)
    (hpos : ∀ w ∈ weights, ∀ j, 0 < w.get j) (hsize : order + 1 ≤ N) :
    Sample.ofInput (Tensor.ofMat (polynomialDesign t order)) observed input =
      .ok ⟨(⟨polynomialDesign t order, y⟩ : Observations ℝ N (order + 1)).scaled weights⟩ := by
  have hdesign := Tensor.matrix_ofMat (polynomialDesign t order)
  cases hweights with
  | none =>
    exact Sample.ofInput_of_lists (o := ⟨polynomialDesign t order, y⟩) rfl hdesign hobserved hsize
  | @some w input hw =>
    exact Sample.ofInput_of_weights (o := ⟨polynomialDesign t order, y⟩) rfl hdesign hobserved
      hsize hw fun j => decide_eq_false (not_le.mpr (hpos w rfl j))

/-- A polynomial is fitted to points if and only if they have more values than its order. At fewer
values the fit fails, and says that the matrix is not positive definite. Otherwise its coefficients
are those of the polynomial with the least weighted error, and no other of that degree has it. With
one point more than the order that polynomial goes through all of them, and the value of the fit is
zero. Observations, weights and the limit have no part in whether there is a fit. -/
theorem Sample.fit_polynomial {points observed : Nested ℝ} {input : Option (Nested ℝ)}
    (hpoints : points.Lists t) (hobserved : observed.Lists y)
    (hweights : Option.Rel (fun w input => Nested.Lists input w) weights input)
    (hpos : ∀ w ∈ weights, ∀ j, 0 < w.get j) (hsize : order + 1 ≤ N) (limit : Nat) :
    ∃ (design : Tensor ℝ) (fitted : Observations ℝ N (order + 1)) (events : List (Event ℝ))
      (outcome : Except Fault (Solution ℝ (order + 1) 0 0)),
      polynomialDesignOf points order = .ok design ∧
      Sample.ofInput design observed input = .ok ⟨fitted⟩ ∧
      Sample.fit ⟨fitted⟩ [] limit = .ok ⟨events, outcome⟩ ∧
      (∀ fault, outcome = .error fault ↔
        fault = .notPositiveDefinite ∧ (valuesOf t).card ≤ order) ∧
      (∀ fault, outcome = .error fault →
        fault.message? = some "A must be symmetric positive definite") ∧
      (order < (valuesOf t).card → ∃ (answer : Solution ℝ (order + 1) 0 0) (q : ℝ[X]),
        outcome = .ok answer ∧ answer.status = .proper ∧
        q.natDegree ≤ order ∧ (∀ i, answer.point.get i = q.coeff i) ∧
        answer.value = polynomialError t y weights q ∧
        (∀ r : ℝ[X], r.natDegree ≤ order →
          polynomialError t y weights q ≤ polynomialError t y weights r ∧
            (polynomialError t y weights r = polynomialError t y weights q → r = q)) ∧
        (N = order + 1 → answer.value = 0 ∧ ∀ j, q.eval (t.get j) = y.get j)) := by
  let o : Observations ℝ N (order + 1) := ⟨polynomialDesign t order, y⟩
  have hresidual : (o.scaled weights).residualSum =
      fun x => polynomialError t y weights (polynomialOf x.get) := funext fun x => by
    rw [residualSum_scaled hpos, squaredError_polynomialDesign]
  have hanswered (hvalues : order < (valuesOf t).card) :
      ∃ answer : Solution ℝ (order + 1) 0 0,
        ((o.scaled weights).fitOver .empty limit).outcome = .ok answer ∧
        answer.status = .proper ∧ answer.value = (o.scaled weights).residualSum answer.point ∧
        IsLeastAt (o.scaled weights).residualSum answer.point := by
    apply exists_least_of_definite
    by_contra hindefinite
    exact absurd ((not_posDef_polynomialDesign_iff hpos).mp hindefinite) (not_le.mpr hvalues)
  have hrefused (fault : Fault) : ((o.scaled weights).fitOver .empty limit).outcome =
      .error fault ↔ fault = .notPositiveDefinite ∧ (valuesOf t).card ≤ order := by
    constructor
    · intro h
      rcases Nat.lt_or_ge order (valuesOf t).card with hvalues | hfew
      · obtain ⟨answer, hanswer, -⟩ := hanswered hvalues
        cases hanswer.symm.trans h
      · exact ⟨Except.error.inj (h.symm.trans (outcome_of_indefinite
          ((not_posDef_polynomialDesign_iff hpos).mpr hfew))), hfew⟩
    · rintro ⟨rfl, hfew⟩
      exact outcome_of_indefinite ((not_posDef_polynomialDesign_iff hpos).mpr hfew)
  refine ⟨_, o.scaled weights, ((o.scaled weights).fitOver .empty limit).events,
    ((o.scaled weights).fitOver .empty limit).outcome, polynomialDesignOf_of_lists hpoints order,
    ofInput_polynomialDesign hobserved hweights hpos hsize, rfl, hrefused, fun fault h => ?_,
    fun hvalues => ?_⟩
  · obtain ⟨rfl, -⟩ := (hrefused fault).mp h
    rfl
  · obtain ⟨answer, hanswer, hproper, hvalue, hleast⟩ := hanswered hvalues
    rw [hresidual] at hvalue hleast
    have hbest (r : ℝ[X]) (hr : r.natDegree ≤ order) :
        polynomialError t y weights (polynomialOf answer.point.get) ≤
          polynomialError t y weights r ∧
        (polynomialError t y weights r =
          polynomialError t y weights (polynomialOf answer.point.get) →
            r = polynomialOf answer.point.get) := by
      obtain ⟨x, rfl⟩ := exists_polynomialOf hr
      exact ⟨(hleast x).1, fun heq => by rw [(hleast x).2 heq]⟩
    refine ⟨answer, polynomialOf answer.point.get, hanswer, hproper,
      natDegree_polynomialOf_le _, fun i => (coeff_polynomialOf _ i).symm, hvalue, hbest,
      fun hsize => ?_⟩
    obtain ⟨r, hr, hthrough⟩ := exists_interpolating hvalues hsize y
    have hnone := (polynomialError_eq_zero_iff hpos r).mpr hthrough
    have hzero : polynomialError t y weights (polynomialOf answer.point.get) = 0 :=
      le_antisymm ((hbest r hr).1.trans_eq hnone) (sum_weighted_sq_nonneg hpos _)
    exact ⟨hvalue.trans hzero, (polynomialError_eq_zero_iff hpos _).mp hzero⟩

end Fit

/-! ### A line through two points -/

theorem one_lt_card_valuesOf {a b : ℝ} (h : a ≠ b) : 1 < (valuesOf #v[a, b]).card :=
  Finset.one_lt_card.mpr ⟨a, Finset.mem_image_of_mem _ (Finset.mem_univ (0 : Fin 2)),
    b, Finset.mem_image_of_mem _ (Finset.mem_univ (1 : Fin 2)), h⟩

theorem card_valuesOf_twice (a : ℝ) : (valuesOf #v[a, a]).card ≤ 1 := by
  have hsubset : valuesOf #v[a, a] ⊆ {a} := by
    intro t ht
    obtain ⟨j, -, rfl⟩ := Finset.mem_image.mp ht
    fin_cases j <;> exact Finset.mem_singleton_self a
  exact (Finset.card_le_card hsubset).trans_eq (Finset.card_singleton a)

/-- The line through `(0, 1)` and `(2, 3)` is `1 + t`, whatever the weights. There is no line for
two observations at one point. -/
theorem Sample.fit_polynomial_line :
    (∃ (design : Tensor ℝ) (fitted : Observations ℝ 2 2) (events : List (Event ℝ))
      (answer : Solution ℝ 2 0 0),
      polynomialDesignOf (.list [.number 0, .number 2]) 1 = .ok design ∧
      Sample.ofInput design (.list [.number 1, .number 3])
        (some (.list [.number 1, .number 2])) = .ok ⟨fitted⟩ ∧
      Sample.fit ⟨fitted⟩ [] 100 = .ok ⟨events, .ok answer⟩ ∧
      answer.point.get 0 = 1 ∧ answer.point.get 1 = 1 ∧ answer.value = 0) ∧
    ∃ (design : Tensor ℝ) (fitted : Observations ℝ 2 2) (events : List (Event ℝ)),
      polynomialDesignOf (.list [.number 2, .number 2]) 1 = .ok design ∧
      Sample.ofInput design (.list [.number 1, .number 3]) none = .ok ⟨fitted⟩ ∧
      Sample.fit ⟨fitted⟩ [] 100 =
        .ok ⟨events, (.error .notPositiveDefinite : Except Fault (Solution ℝ 2 0 0))⟩ := by
  have hpos : ∀ w ∈ some (#v[1, 2] : Vector ℝ 2), ∀ j, 0 < w.get j := by
    rintro w hw j
    obtain rfl := Option.mem_some_iff.mp hw
    fin_cases j <;> simp [Vec.get_eq_getElem]
  have hnone : ∀ w ∈ (none : Option (Vector ℝ 2)), ∀ j, 0 < w.get j := fun w hw => nomatch hw
  obtain ⟨design, fitted, events, outcome, hdesign, hinput, hfit, -, -, hanswered⟩ :=
    Sample.fit_polynomial (Nested.lists_pair 0 2) (Nested.lists_pair 1 3)
      (.some (Nested.lists_pair 1 2)) hpos le_rfl 100
  obtain ⟨design', fitted', events', outcome', hdesign', hinput', hfit', hrefused, -, -⟩ :=
    Sample.fit_polynomial (Nested.lists_pair 2 2) (Nested.lists_pair 1 3) .none hnone le_rfl 100
  obtain rfl := (hrefused _).mpr ⟨rfl, card_valuesOf_twice 2⟩
  obtain ⟨answer, q, rfl, -, hdegree, hpoint, -, -, hthrough⟩ :=
    hanswered (one_lt_card_valuesOf two_ne_zero.symm)
  obtain ⟨hvalue, heval⟩ := hthrough rfl
  have hsum (t : ℝ) : q.eval t = q.coeff 0 + q.coeff 1 * t := by
    rw [eval_eq_sum_range' (Nat.lt_succ_of_le hdegree), Finset.sum_range_succ,
      Finset.sum_range_one, pow_zero, mul_one, pow_one]
  have hfirst : q.coeff 0 + q.coeff 1 * 0 = 1 := (hsum 0).symm.trans (heval 0)
  have hsecond : q.coeff 0 + q.coeff 1 * 2 = 3 := (hsum 2).symm.trans (heval 1)
  refine ⟨⟨design, fitted, events, answer, hdesign, hinput, hfit, ?_, ?_, hvalue⟩,
    design', fitted', events', hdesign', hinput', hfit'⟩
  · rw [hpoint]
    show q.coeff 0 = 1
    linarith
  · rw [hpoint]
    show q.coeff 1 = 1
    linarith

end ActiveSet

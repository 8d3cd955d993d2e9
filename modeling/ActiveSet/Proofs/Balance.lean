import ActiveSet.Proofs.Signs
/-
  Stationarity in every state of a separated run

  A run is separated if no rotation that its folds skip had anything to clear,
  and every `z · z` that is compared with the threshold is zero or above it.
  Along such a run the gradient of the objective at the point is the
  combination of the active normals with the dual values as weights, and the
  tracked value is the objective (`Balanced`). While a candidate is being
  added its normal takes part with the dual value in the slot after the active
  ones.

  A step keeps the balance because the normal in hand splits into `A z`, which
  is what the gradient changes by, and the dual direction. A constraint is
  dropped with the weight zero. After a drop the candidate does not depend on
  the active constraints any more, which is why a candidate that nothing can
  move towards still has the weight zero (`started`).
-/

open Matrix

namespace ActiveSet

variable {n e m slots : Nat}

/-! ## Sums over slots -/

/-- Taking one slot out of a sum. -/
theorem sum_range_skip {M : Type} [AddCommMonoid M] (f : Nat → M) {p q : Nat} (hp : p ≤ q) :
    ∑ k ∈ Finset.range (q + 1), f k = ∑ k ∈ Finset.range q, f (skip p k) + f p := by
  induction q with
  | zero =>
    obtain rfl : p = 0 := by omega
    simp
  | succ q ih =>
    rcases Nat.lt_or_ge q p with hlt | hge
    · obtain rfl : p = q + 1 := by omega
      rw [Finset.sum_range_succ]
      congr 1
      apply Finset.sum_congr rfl
      intro k hk
      rw [skip_of_lt (Finset.mem_range.mp hk)]
    · calc ∑ k ∈ Finset.range (q + 2), f k
          = ∑ k ∈ Finset.range q, f (skip p k) + f p + f (q + 1) := by
            rw [Finset.sum_range_succ, ih hge]
        _ = ∑ k ∈ Finset.range q, f (skip p k) + f (skip p q) + f p := by
            rw [skip_of_le hge, add_right_comm]
        _ = ∑ k ∈ Finset.range (q + 1), f (skip p k) + f p := by rw [Finset.sum_range_succ]

/-- What a step does to a weighted sum in which the last vector splits into the others and a
rest. -/
theorem sum_step {q : Nat} {u u' r : Nat → ℝ} {ν : Nat → Fin n → ℝ} {w : Fin n → ℝ} {t u₀ : ℝ}
    (hν : ν q = w + ∑ k ∈ Finset.range q, r k • ν k) (hu : ∀ k < q, u' k = u k - t * r k)
    (hq : u' q = u₀ + t) :
    ∑ k ∈ Finset.range (q + 1), u' k • ν k =
      ∑ k ∈ Finset.range q, u k • ν k + u₀ • ν q + t • w := by
  have hold : ∑ k ∈ Finset.range q, u' k • ν k =
      ∑ k ∈ Finset.range q, u k • ν k - t • ∑ k ∈ Finset.range q, r k • ν k := by
    rw [Finset.smul_sum, ← Finset.sum_sub_distrib]
    apply Finset.sum_congr rfl
    intro k hk
    rw [hu k (Finset.mem_range.mp hk), sub_smul, mul_smul]
  have hlast : u' q • ν q = u₀ • ν q + t • w + t • ∑ k ∈ Finset.range q, r k • ν k := by
    rw [hq, add_smul]
    nth_rewrite 2 [hν]
    rw [smul_add, add_assoc]
  rw [Finset.sum_range_succ, hold, hlast]
  abel

/-! ## The objective along a direction -/

namespace Problem

variable (P : Problem ℝ n e m)

theorem get_gradient (x : Vector ℝ n) :
    (P.gradient x).get = P.quadratic.toMatrix *ᵥ x.get + P.linear.get := by
  rw [gradient, Vec.get_add, Mat.get_mulVec]

theorem objective_eq (x : Vector ℝ n) :
    P.objective x = 1 / 2 * (x.get ⬝ᵥ P.quadratic.toMatrix *ᵥ x.get) + P.linear.get ⬝ᵥ x.get := by
  rw [objective, Vec.dot_eq, Vec.dot_eq, Vec.get_scale, Mat.get_mulVec, smul_dotProduct,
    Scalar.half_real, smul_eq_mul]

theorem gradient_move (x z : Vector ℝ n) (t : ℝ) :
    (P.gradient (Vec.add x (Vec.scale t z))).get =
      (P.gradient x).get + t • P.quadratic.toMatrix *ᵥ z.get := by
  rw [get_gradient, get_gradient, Vec.get_add, Vec.get_scale, Matrix.mulVec_add,
    Matrix.mulVec_smul]
  abel

/-- The inner product that a symmetric matrix gives is symmetric. -/
theorem dotProduct_mulVec_comm {P : Problem ℝ n e m} (hsymmetric : P.quadratic.IsSymmetric)
    (u w : Fin n → ℝ) :
    u ⬝ᵥ P.quadratic.toMatrix *ᵥ w = w ⬝ᵥ P.quadratic.toMatrix *ᵥ u := by
  have htranspose : P.quadratic.toMatrixᵀ = P.quadratic.toMatrix := by
    ext i j
    exact hsymmetric j i
  rw [dotProduct_mulVec_eq, htranspose, dotProduct_comm]

/-- The objective is a quadratic function along every direction. -/
theorem objective_move {P : Problem ℝ n e m} (hsymmetric : P.quadratic.IsSymmetric)
    (x z : Vector ℝ n) (t : ℝ) :
    P.objective (Vec.add x (Vec.scale t z)) =
      P.objective x + t * (z.get ⬝ᵥ (P.gradient x).get) +
        1 / 2 * t * t * (z.get ⬝ᵥ P.quadratic.toMatrix *ᵥ z.get) := by
  have hcross := dotProduct_mulVec_comm hsymmetric x.get z.get
  simp only [objective_eq, get_gradient, Vec.get_add, Vec.get_scale, Matrix.mulVec_add,
    Matrix.mulVec_smul, dotProduct_add, add_dotProduct, smul_dotProduct, dotProduct_smul,
    smul_eq_mul, hcross]
  rw [dotProduct_comm z.get P.linear.get]
  ring

/-- The objective at one point, expanded at another. -/
theorem objective_expand {P : Problem ℝ n e m} (hsymmetric : P.quadratic.IsSymmetric)
    (x y : Vector ℝ n) :
    P.objective y = P.objective x + (y.get - x.get) ⬝ᵥ (P.gradient x).get +
      1 / 2 * ((y.get - x.get) ⬝ᵥ P.quadratic.toMatrix *ᵥ (y.get - x.get)) := by
  have hy : Vec.add x (Vec.scale 1 (Vec.sub y x)) = y := Vec.ext_get fun i => by
    rw [Vec.get_add, Vec.get_scale, Vec.get_sub, one_smul, add_sub_cancel]
  have hvalue := objective_move hsymmetric x (Vec.sub y x) 1
  rw [hy, Vec.get_sub] at hvalue
  linarith

end Problem

/-! ## The invariant -/

/-- The combination of the normals in the first `count` slots with the given weights. -/
noncomputable def Problem.weighted (P : Problem ℝ n e m) (label : Nat → Label) (dual : Nat → ℝ)
    (count : Nat) : Fin n → ℝ :=
  ∑ k ∈ Finset.range count, dual k • P.normal (label k)

theorem Problem.weighted_congr {P : Problem ℝ n e m} {label label' : Nat → Label}
    {dual dual' : Nat → ℝ} {count : Nat} (hlabel : ∀ k < count, label' k = label k)
    (hdual : ∀ k < count, dual' k = dual k) :
    P.weighted label' dual' count = P.weighted label dual count := by
  apply Finset.sum_congr rfl
  intro k hk
  have hk := Finset.mem_range.mp hk
  rw [hlabel k hk, hdual k hk]

/-- Stationarity and value at a snapshot. -/
structure Snapshot.Balanced (P : Problem ℝ n e m) (t : Snapshot ℝ n slots) : Prop where
  gradient : (P.gradient t.point).get = P.weighted t.label t.dual t.count
  value : t.value = P.objective t.point

/-- Whether a vector is no combination of the active normals. -/
def Iterate.Independent (P : Problem ℝ n e m) (it : Iterate ℝ n slots m) (v : Fin n → ℝ) : Prop :=
  ∀ weight : Nat → ℝ, v ≠ P.weighted it.workspace.label weight it.workspace.count

/-- Stationarity and value while a candidate is being added. -/
structure Iterate.Balanced (P : Problem ℝ n e m) (candidate : Fin m) (it : Iterate ℝ n slots m) :
    Prop where
  gradient : (P.gradient it.point).get =
    P.weighted it.workspace.label it.workspace.dual (it.workspace.count + 1)
  value : it.value = P.objective it.point
  started : it.workspace.dual it.workspace.count = 0 ∨
    it.Independent P (P.inequalities.get candidate).normal.get

section Exact

variable {P : Problem ℝ n e m} {history : List (Admission ℝ n slots m)}
  {it : Iterate ℝ n slots m}

theorem Columns.residue_eq_zero {t : Snapshot ℝ n slots} (h : Columns P history t)
    (hclean : ∀ a ∈ history, SkipsOnlyZeros (a.before.foldPairs P)) :
    ∀ k < t.count, residue P history (t.label k) = 0 := by
  intro k hk
  obtain ⟨a, ha⟩ := h.folded k hk
  rw [residue_of_ownFold ha]
  exact uncleared_eq_zero (hclean a (List.mem_of_find?_eq_some ha))

variable (hcolumns : Columns P history it.snapshot)
  (hclean : ∀ a ∈ history, SkipsOnlyZeros (a.before.foldPairs P))

include hcolumns hclean

theorem Columns.normal_split {v : Vector ℝ n} {direction : Vector ℝ (it.workspace.aim v).count}
    (hdirection : (it.workspace.aim v).dualDirection = .ok direction) :
    v.get = P.quadratic.toMatrix *ᵥ (it.workspace.aim v).primal.get +
      P.weighted it.workspace.label (Vec.extend direction) it.workspace.count :=
  hcolumns.factored.normal_eq (hcolumns.residue_eq_zero hclean) hdirection

/-- The point moves along every combination of active constraints. -/
theorem Columns.primal_dot_weighted (v : Vector ℝ n) (dual : Nat → ℝ) :
    (it.workspace.aim v).primal.get ⬝ᵥ
      P.weighted it.workspace.label dual it.workspace.count = 0 := by
  rw [Problem.weighted, dotProduct_sum]
  apply Finset.sum_eq_zero
  intro k hk
  have hk := Finset.mem_range.mp hk
  have hzero := hcolumns.factored.normal_dot_primal hk (hcolumns.residue_eq_zero hclean k hk) v
  change P.normal (it.workspace.label k) ⬝ᵥ _ = 0 at hzero
  rw [dotProduct_smul, dotProduct_comm, hzero, smul_zero]

/-- A normal that is a combination of active ones is the combination that the dual direction
gives. -/
theorem Columns.weight_eq_direction {v : Vector ℝ n}
    {direction : Vector ℝ (it.workspace.aim v).count}
    (hdirection : (it.workspace.aim v).dualDirection = .ok direction) {weight : Nat → ℝ}
    (hv : v.get = P.weighted it.workspace.label weight it.workspace.count) :
    ∀ k < it.workspace.count, weight k = Vec.extend direction k := by
  intro k hk
  have hsplit := hcolumns.normal_split hclean hdirection
  have hdiff : P.quadratic.toMatrix *ᵥ (it.workspace.aim v).primal.get =
      ∑ k ∈ Finset.range it.workspace.count,
        (weight k - Vec.extend direction k) • P.normal (it.workspace.label k) := by
    rw [eq_sub_of_add_eq hsplit.symm, hv, Problem.weighted, Problem.weighted,
      ← Finset.sum_sub_distrib]
    exact Finset.sum_congr rfl fun k _ => (sub_smul _ _ _).symm
  have hzero := hcolumns.factored.coefficients_eq_zero (hcolumns.residue_eq_zero hclean) hdiff k hk
  exact sub_eq_zero.mp hzero

/-- A step along the directions keeps the balance: the active dual values move against the dual
direction, and that of the constraint in hand rises from `u₀` by the step. -/
theorem Columns.gradient_step {v : Vector ℝ n} {direction : Vector ℝ (it.workspace.aim v).count}
    (hdirection : (it.workspace.aim v).dualDirection = .ok direction) {label : Nat → Label}
    {dual : Nat → ℝ} {step u₀ : ℝ}
    (hgradient : (P.gradient it.point).get =
      P.weighted it.workspace.label it.workspace.dual it.workspace.count + u₀ • v.get)
    (hlabel : ∀ k < it.workspace.count, label k = it.workspace.label k)
    (hnew : P.normal (label it.workspace.count) = v.get)
    (hdual : ∀ k < it.workspace.count,
      dual k = it.workspace.dual k - step * Vec.extend direction k)
    (hraised : dual it.workspace.count = u₀ + step) :
    (P.gradient (Vec.add it.point (Vec.scale step (it.workspace.aim v).primal))).get =
      P.weighted label dual (it.workspace.count + 1) := by
  have hnormals : ∀ k ∈ Finset.range it.workspace.count,
      P.normal (label k) = P.normal (it.workspace.label k) := fun k hk => by
    rw [hlabel k (Finset.mem_range.mp hk)]
  have hsplit := hcolumns.normal_split hclean hdirection
  rw [Problem.weighted, ← Finset.sum_congr rfl fun k hk =>
    congrArg (Vec.extend direction k • ·) (hnormals k hk), ← hnew] at hsplit
  rw [Problem.weighted, sum_step hsplit hdual hraised, hnew, Problem.gradient_move, hgradient,
    Problem.weighted, Finset.sum_congr rfl fun k hk =>
      congrArg (it.workspace.dual k • ·) (hnormals k hk)]

/-- The tracked value follows the objective. -/
theorem Columns.value_step (hsymmetric : P.quadratic.IsSymmetric) {c : Constraint ℝ n}
    {step u₀ : ℝ} (hgradient : (P.gradient it.point).get =
      P.weighted it.workspace.label it.workspace.dual it.workspace.count + u₀ • c.normal.get) :
    P.objective (Vec.add it.point (Vec.scale step (it.workspace.aim c.normal).primal)) =
      P.objective it.point + step * (it.workspace.aim c.normal).curvature c *
        (Scalar.half * step + u₀) := by
  have hcurvature : (it.workspace.aim c.normal).curvature c =
      (it.workspace.aim c.normal).primal.get ⬝ᵥ c.normal.get := by
    rw [Workspace.curvature, Vec.dot_eq]
  -- `z · A z = z · n`, so the slope grows with the step as it grows with `u₀`
  have hself : (it.workspace.aim c.normal).primal.get ⬝ᵥ
      P.quadratic.toMatrix *ᵥ (it.workspace.aim c.normal).primal.get =
        (it.workspace.aim c.normal).curvature c := by
    rw [hcurvature, dotProduct_comm _ c.normal.get]
    exact hcolumns.factored.primal_dot_mulVec c.normal
  have hslope : (it.workspace.aim c.normal).primal.get ⬝ᵥ (P.gradient it.point).get =
      u₀ * (it.workspace.aim c.normal).curvature c := by
    rw [hgradient, dotProduct_add, hcolumns.primal_dot_weighted hclean, zero_add, dotProduct_smul,
      smul_eq_mul, hcurvature]
  rw [Problem.objective_move hsymmetric, hself, hslope, Scalar.half_real]
  ring

end Exact

namespace Machine

variable {P : Problem ℝ n e m} {limit : Nat} {tolerance : ℝ} {candidate : Fin m}
  {it it' : Iterate ℝ n slots m} {history : List (Admission ℝ n slots m)}

theorem balanced_of_met (hsymmetric : P.quadratic.IsSymmetric) {i : Fin e}
    (hcolumns : Columns P history it.snapshot)
    (hclean : ∀ a ∈ history, SkipsOnlyZeros (a.before.foldPairs P))
    (h : it.snapshot.Balanced P) (hmet : it.Met P i it') : it'.snapshot.Balanced P := by
  obtain ⟨hroom, hcount, -, hlabel⟩ := hmet.names
  cases hmet with
  | @intro c ws ws₁ ws₂ direction step hc hws hdirection hstep hplace hfold =>
    subst hws
    change ws₂.count = it.workspace.count + 1 at hcount
    -- the equality starts with the dual value zero
    have hgradient : (P.gradient it.point).get =
        P.weighted it.workspace.label it.workspace.dual it.workspace.count +
          (0 : ℝ) • c.normal.get := by
      rw [zero_smul, add_zero]
      exact h.gradient
    have hdual (k : Nat) : ws₂.dual k = if k = it.workspace.count then step
        else ((it.workspace.aim c.normal).relax step direction).dual k := by
      rw [Workspace.dual_fold hfold, Workspace.dual_place hplace]
      rfl
    have hname : P.constraint? (.equality i) = some c := by
      rw [hc, Problem.constraint?_equality]
    constructor
    · show (P.gradient (Vec.add it.point (Vec.scale step _))).get =
        P.weighted ws₂.label ws₂.dual ws₂.count
      rw [hcount]
      apply hcolumns.gradient_step hclean hdirection hgradient
      · intro k hk
        exact (hlabel k).trans (if_neg (Nat.ne_of_lt hk))
      · have hlast : ws₂.label it.workspace.count = .equality i := (hlabel _).trans (if_pos rfl)
        rw [hlast, Problem.normal_of_constraint? hname]
      · intro k hk
        rw [hdual, if_neg (Nat.ne_of_lt hk), Workspace.dual_relax (by omega)]
        exact if_pos hk
      · rw [hdual, if_pos rfl, zero_add]
    · show it.value + Scalar.half * step * step * (it.workspace.aim c.normal).curvature c =
        P.objective (Vec.add it.point (Vec.scale step _))
      have hvalue : it.value = P.objective it.point := h.value
      rw [hcolumns.value_step hclean hsymmetric hgradient, hvalue]
      ring

theorem balanced_of_chosen {ws : Workspace ℝ n slots} {events : List (Event ℝ)}
    (h : it.snapshot.Balanced P)
    (hplace : it.workspace.place (.inequality candidate) 0 = .ok ws) :
    Iterate.Balanced P candidate { it with workspace := ws, events } := by
  obtain ⟨_, hws⟩ := Workspace.place_ok hplace
  have hcount : ws.count = it.workspace.count := by rw [hws]
  have hdual : ws.dual ws.count = 0 := by rw [Workspace.dual_place hplace, if_pos hcount]
  refine ⟨?_, h.value, .inl hdual⟩
  show (P.gradient it.point).get = P.weighted ws.label ws.dual (ws.count + 1)
  have hgradient : (P.gradient it.point).get =
      P.weighted it.workspace.label it.workspace.dual it.workspace.count := h.gradient
  have hsame : P.weighted ws.label ws.dual ws.count =
      P.weighted it.workspace.label it.workspace.dual it.workspace.count := by
    rw [hcount]
    apply Problem.weighted_congr
    · intro k hk
      rw [Workspace.label_place hplace, if_neg (Nat.ne_of_lt hk)]
    · intro k hk
      rw [Workspace.dual_place hplace, if_neg (Nat.ne_of_lt hk)]
  rw [hgradient, ← hsame]
  simp only [Problem.weighted]
  rw [Finset.sum_range_succ, hdual, zero_smul, add_zero]

/-- While a candidate is being added, the gradient in terms of its own normal. -/
theorem gradient_of_balanced (hadds : it.Adds P tolerance candidate) {c : Constraint ℝ n}
    (hc : c = P.inequalities.get candidate) (h : it.Balanced P candidate) :
    (P.gradient it.point).get =
      P.weighted it.workspace.label it.workspace.dual it.workspace.count +
        it.workspace.dual it.workspace.count • c.normal.get := by
  have hname : P.constraint? (.inequality candidate) = some c := by
    rw [hc, Problem.constraint?_inequality]
  rw [h.gradient, Problem.weighted, Finset.sum_range_succ, hadds.label_eq,
    Problem.normal_of_constraint? hname]
  rfl

/-- The balance after the move of a pass, with the shifted dual values. -/
theorem balanced_shift (hsymmetric : P.quadratic.IsSymmetric)
    (hadds : it.Adds P tolerance candidate) (hcolumns : Columns P history it.snapshot)
    (hclean : ∀ a ∈ history, SkipsOnlyZeros (a.before.foldPairs P)) {c : Constraint ℝ n}
    (hc : c = P.inequalities.get candidate) (h : it.Balanced P candidate)
    {direction : Vector ℝ (it.workspace.aim c.normal).count}
    (hdirection : (it.workspace.aim c.normal).dualDirection = .ok direction) (step : ℝ) :
    (P.gradient (Vec.add it.point (Vec.scale step (it.workspace.aim c.normal).primal))).get =
        P.weighted it.workspace.label ((it.workspace.aim c.normal).shift step direction).dual
          (it.workspace.count + 1) ∧
      it.value + step * (it.workspace.aim c.normal).curvature c *
          (Scalar.half * step + it.workspace.dual it.workspace.count) =
        P.objective (Vec.add it.point (Vec.scale step (it.workspace.aim c.normal).primal)) := by
  have hgradient := gradient_of_balanced hadds hc h
  have hname : P.constraint? (.inequality candidate) = some c := by
    rw [hc, Problem.constraint?_inequality]
  have hroom : it.workspace.count ≤ slots := hadds.count_le
  constructor
  · apply hcolumns.gradient_step hclean hdirection hgradient (fun k _ => rfl)
    · rw [hadds.label_eq, Problem.normal_of_constraint? hname]
    · intro k hk
      rw [Workspace.dual_shift (by omega)]
      exact if_pos hk
    · rw [Workspace.dual_shift hroom]
      exact (if_neg (Nat.lt_irrefl _)).trans (if_pos rfl)
  · rw [hcolumns.value_step hclean hsymmetric hgradient, h.value]

theorem balanced_of_added (hsymmetric : P.quadratic.IsSymmetric)
    (hadds : it.Adds P tolerance candidate) (hcolumns : Columns P history it.snapshot)
    (hclean : ∀ a ∈ history, SkipsOnlyZeros (a.before.foldPairs P)) (h : it.Balanced P candidate)
    (hreached : it.Reached P candidate true it') : it'.snapshot.Balanced P := by
  obtain ⟨hlabel, -, -, hcount⟩ := hreached.keeps
  cases hreached with
  | @intro c ws ws₁ direction step events hc hws hdirection hplan hfold =>
    subst hws
    obtain ⟨hgradient, hvalue⟩ :=
      balanced_shift hsymmetric hadds hcolumns hclean hc h hdirection step
    refine ⟨?_, hvalue⟩
    show (P.gradient (Vec.add it.point (Vec.scale step _))).get =
      P.weighted ws₁.label ws₁.dual ws₁.count
    have hgrown : ws₁.count = it.workspace.count + 1 := hcount rfl
    rw [hgradient, hgrown]
    exact (Problem.weighted_congr (fun k _ => hlabel k) fun k _ =>
      Workspace.dual_fold hfold k).symm

/-- A dual step is one along which the point does not move either. -/
theorem moved_of_dropsAt {c : Constraint ℝ n}
    {direction : Vector ℝ (it.workspace.aim c.normal).count} {step : ℝ} {p : Nat}
    (hsquare : Vec.dot (it.workspace.aim c.normal).primal (it.workspace.aim c.normal).primal = 0 ∨
      Scalar.epsilon <
        Vec.dot (it.workspace.aim c.normal).primal (it.workspace.aim c.normal).primal)
    (hdrop : it.DropsAt P candidate it' c direction step p) :
    it'.point = Vec.add it.point (Vec.scale step (it.workspace.aim c.normal).primal) ∧
      it'.value = it.value + step * (it.workspace.aim c.normal).curvature c *
        (Scalar.half * step + it.workspace.dual it.workspace.count) := by
  rcases hdrop.moves with ⟨hstay, hpoint, hvalue, -⟩ | ⟨-, -, hpoint, hvalue, -⟩
  · have hzero := Workspace.primal_eq_zero_of_stay hsquare hstay
    refine ⟨Vec.ext_get ?_, ?_⟩
    · intro i
      rw [hpoint, Vec.get_add, Vec.get_scale, hzero, smul_zero, add_zero]
    · rw [hvalue, Workspace.curvature, Vec.dot_eq, hzero, zero_dotProduct]
      ring
  · exact ⟨hpoint, hvalue⟩

/-- Once a constraint has been dropped for it, the candidate depends on the others no more: the
only combination that it was had the dropped constraint in it. -/
theorem independent_of_dropsAt (hadds : it.Adds P tolerance candidate)
    (hcolumns : Columns P history it.snapshot)
    (hclean : ∀ a ∈ history, SkipsOnlyZeros (a.before.foldPairs P)) {c : Constraint ℝ n}
    {direction : Vector ℝ (it.workspace.aim c.normal).count} {step : ℝ} {p : Nat}
    (hdrop : it.DropsAt P candidate it' c direction step p) : it'.Independent P c.normal.get := by
  intro weight hweight
  have hpc : p < it.workspace.count := hdrop.blocks.lt_count
  have hroom : ((it.workspace.aim c.normal).shift step direction).count ≤ slots := hadds.count_le
  have hcount : it'.workspace.count = it.workspace.count - 1 := by
    rw [hdrop.workspace_eq]
    rfl
  -- the same combination over the old slots, with the weight zero for the dropped one
  obtain ⟨spread, hspread, hnone⟩ : ∃ spread : Nat → ℝ,
      (∀ k, spread (skip p k) = weight k) ∧ spread p = 0 := by
    refine ⟨fun j => if j < p then weight j else if j = p then 0 else weight (j - 1), ?_,
      by simp⟩
    intro k
    rcases Nat.lt_or_ge k p with hk | hk
    · simp only [skip_of_lt hk, if_pos hk]
    · simp only [skip_of_le hk]
      rw [if_neg (by omega), if_neg (by omega), Nat.add_sub_cancel]
  have hold : c.normal.get =
      P.weighted it.workspace.label spread it.workspace.count := by
    rw [hweight, hcount, Problem.weighted, Problem.weighted]
    have hsplit := sum_range_skip (fun k => spread k • P.normal (it.workspace.label k))
      (show p ≤ it.workspace.count - 1 by omega)
    rw [Nat.sub_add_cancel (by omega)] at hsplit
    simp only [hspread, hnone, zero_smul, add_zero] at hsplit
    rw [hsplit]
    apply Finset.sum_congr rfl
    intro k hk
    have hk := Finset.mem_range.mp hk
    have hlabel : it'.workspace.label k = it.workspace.label (skip p k) := by
      rw [hdrop.workspace_eq]
      exact Workspace.label_eraseAt hroom (show k < it.workspace.count by omega)
    rw [hlabel]
  -- but the dual direction is the only such combination, and it is not zero in that slot
  have hdirection := hcolumns.weight_eq_direction hclean hdrop.direction_eq hold p hpc
  have hfalls : 0 < Vec.extend direction p := by simpa using hdrop.blocks.falls
  rw [hnone] at hdirection
  exact absurd hdirection hfalls.ne

theorem balanced_of_dropped (hsymmetric : P.quadratic.IsSymmetric)
    (hadds : it.Adds P tolerance candidate) (hcolumns : Columns P history it.snapshot)
    (hclean : ∀ a ∈ history, SkipsOnlyZeros (a.before.foldPairs P))
    (hsquare : ∀ c, c = P.inequalities.get candidate →
      Vec.dot (it.workspace.aim c.normal).primal (it.workspace.aim c.normal).primal = 0 ∨
        Scalar.epsilon <
          Vec.dot (it.workspace.aim c.normal).primal (it.workspace.aim c.normal).primal)
    (h : it.Balanced P candidate) (hdropped : it.Dropped P candidate it') :
    it'.Balanced P candidate := by
  obtain ⟨c, direction, step, p, hdrop⟩ := hdropped.dropsAt hadds
  have hpc : p < it.workspace.count := hdrop.blocks.lt_count
  have hroom : ((it.workspace.aim c.normal).shift step direction).count ≤ slots := hadds.count_le
  obtain ⟨hpoint, hvalue⟩ := moved_of_dropsAt (hsquare c hdrop.constraint) hdrop
  obtain ⟨hgradient, hobjective⟩ :=
    balanced_shift hsymmetric hadds hcolumns hclean hdrop.constraint h hdrop.direction_eq step
  have hcount : it'.workspace.count + 1 = it.workspace.count := by
    rw [hdrop.workspace_eq]
    exact Nat.sub_add_cancel (Nat.one_le_of_lt hpc)
  -- what is dropped has come down to zero, so it can be left out of the combination
  have hzero : ((it.workspace.aim c.normal).shift step direction).dual p = 0 :=
    Workspace.dual_shift_blocking hroom hdrop.blocks
  refine ⟨?_, ?_, .inr (hdrop.constraint ▸ independent_of_dropsAt hadds hcolumns hclean hdrop)⟩
  · rw [hpoint, hgradient, hcount]
    simp only [Problem.weighted]
    rw [sum_range_skip _ hpc.le, hzero, zero_smul, add_zero]
    apply Finset.sum_congr rfl
    intro k hk
    have hk := Finset.mem_range.mp hk
    rw [hdrop.workspace_eq, Workspace.dual_eraseAt hroom hk, Workspace.label_eraseAt hroom hk]
    rfl
  · rw [hvalue, hpoint, hobjective]

end Machine

end ActiveSet

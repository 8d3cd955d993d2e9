import ActiveSet.Proofs.Tightness
/-
  How far an answer is from feasible

  An answer is announced as proper without another look at the equalities, and
  at one of its two places without another look at the inequalities either.
  What that is worth depends on how the active constraints landed when they
  were folded in.

  `equalities_of_solve`: an equality holds at the answer exactly if the point
  could move when it was folded in, or had no need to. `violation_of_solve`:
  the total violation is within the tolerance exactly if the solve ended at
  the head of an iteration, and exactly if what the active inequalities were
  short of when they landed adds up to no more. Both rest on folds that
  skipped nothing but zeros.

  Neither is more than an accident of scale. A line and a corner with an
  objective of the wrong scale are solved with a constraint that is active and
  missed (`solve_line`, `solve_short`).
-/

open Matrix

namespace ActiveSet

variable {n e m slots : Nat}

/-! ## The equalities -/

namespace Program

variable {program : Program ℝ} {limit : Int} {buffers : Option (Buffers ℝ)}
  {answer : Solution ℝ program.dimension program.equalityCount program.inequalityCount}

/-- Whether an equality holds at an answer was decided when it was folded in, if that fold skipped
nothing but zeros: it does if `z · z` was above the threshold, so that the point moved onto it, or
if the point was on it already. Below the threshold the equality counts as met but the point stays
where it was, and nothing later brings it back. -/
theorem equalities_of_solve (hsymmetric : program.problem.quadratic.IsSymmetric)
    {guess : Option (Guess ℝ)} (hconstraints : program.constraintCount ≠ 0)
    (h : (program.solve guess limit buffers).outcome = .ok answer) :
    ∃ (slots : Nat)
      (history : List (Admission ℝ program.dimension slots program.inequalityCount))
      (last : Machine ℝ program.dimension slots program.inequalityCount),
      program.Concludes limit buffers answer history last ∧
      ∀ i : Fin program.equalityCount, ∃ a, ownFold history (.equality i) = some a ∧
        (SkipsOnlyZeros (a.before.foldPairs program.problem) →
          ((program.problem.defects answer.point).get i = 0 ↔
            Scalar.epsilon < a.before.directionSquare program.problem ∨
              (program.problem.defects a.before.iterate.point).get i = 0)) := by
  obtain ⟨slots, history, last, hconcludes⟩ := concludes_of_solve hconstraints h
  refine ⟨slots, history, last, hconcludes, ?_⟩
  intro i
  obtain ⟨-, hseating⟩ := hconcludes.seating
  have hlabel := hseating.equality i i.isLt
  have hc : program.problem.constraint? (last.iterate.workspace.label i) =
      some (program.problem.equalities.get i) := by
    rw [hlabel, Problem.constraint?_equality]
  obtain ⟨a, ha, hlanded, hkept⟩ := exists_landing hsymmetric hconcludes.course
    (lt_of_lt_of_le i.isLt hseating.met_le) hc
  rw [hlabel] at ha
  have hname : a.label = .equality i := by simpa [ownFold] using List.find?_some ha
  refine ⟨a, ha, ?_⟩
  intro hzeros
  rw [Problem.get_defects, Problem.get_defects, hconcludes.point_eq, hkept hzeros,
    hlanded.equality i hname]
  by_cases hmove : Scalar.epsilon < a.before.directionSquare program.problem
  · simp [hmove]
  · simp [hmove]

end Program

/-! ### One equality on a line

An equality is folded in whenever `p` is above the threshold, but the point moves onto it only if
the fourth power of `p` is. -/

/-- The nearest point on a line with the equality `x = δ`. -/
noncomputable def Problem.line (p δ : ℝ) : Problem ℝ 1 1 0 := nearest p #v[⟨#v[1], δ⟩] #v[]

/-- The problem as a program. -/
noncomputable def Program.line (p δ : ℝ) : Program ℝ := ⟨Problem.line p δ⟩

section Line

variable {p : ℝ} (δ : ℝ)

namespace Problem

/-- The state that a solve of the line sets out from. -/
noncomputable def lineOrigin (p δ : ℝ) : Machine ℝ 1 1 0 := origin p #v[⟨#v[1], δ⟩] #v[]

/-- The workspace of the solve when it is aimed at the equality. -/
noncomputable def lineAim (p δ : ℝ) : Workspace ℝ 1 1 :=
  (lineOrigin p δ).iterate.workspace.aim ((line p δ).equalities.get 0).normal

theorem get_normal_line (p δ : ℝ) :
    ((line p δ).equalities.get 0).normal.get = fun _ => 1 := by
  funext i
  fin_cases i
  rfl

theorem slack_line (p δ : ℝ) (x : Vector ℝ 1) :
    ((line p δ).equalities.get 0).slack x = x.get 0 - δ := by
  rw [Constraint.slack, Vec.dot_eq, get_normal_line]
  show (∑ i : Fin 1, 1 * x.get i) - δ = _
  rw [Fin.sum_univ_one, one_mul]

theorem get_image_lineAim (hp : 0 < p) : (lineAim p δ).image.get = fun _ => p := by
  have hbasis : (lineOrigin p δ).iterate.workspace.basis.toMatrix = Matrix.diagonal fun _ => p :=
    basis_origin _ _ hp
  rw [lineAim, Workspace.get_image_aim, hbasis, get_normal_line]
  funext i
  simp [Matrix.mulVec_diagonal]

theorem get_primal_lineAim (hp : 0 < p) : (lineAim p δ).primal.get = fun _ => p * p := by
  have hbasis : (lineOrigin p δ).iterate.workspace.basis.toMatrix = Matrix.diagonal fun _ => p :=
    basis_origin _ _ hp
  have himage := get_image_lineAim δ hp
  rw [lineAim] at himage ⊢
  rw [Workspace.get_primal_aim, ← Workspace.get_image_aim, himage, hbasis]
  funext i
  rw [Matrix.mulVec_diagonal,
    tailFrom_of_le (show (lineOrigin p δ).iterate.workspace.count ≤ _ from Nat.zero_le _)]

theorem dot_primal_lineAim (hp : 0 < p) :
    Vec.dot (lineAim p δ).primal (lineAim p δ).primal = p * p * (p * p) := by
  rw [Vec.dot_eq, get_primal_lineAim δ hp]
  simp [dotProduct]

/-- The step onto the equality is not taken when the fourth power of `p` is below the threshold. -/
theorem equalityStep_line (hp : 0 < p) :
    Iterate.equalityStep (lineAim p δ) ((line p δ).equalities.get 0)
        (lineOrigin p δ).iterate.point =
      if Scalar.epsilon < p * p * (p * p) then δ / (p * p) else 0 := by
  have hpoint : (lineOrigin p δ).iterate.point.get = 0 := point_origin _ _ hp
  have hcurvature : (lineAim p δ).curvature ((line p δ).equalities.get 0) = p * p := by
    rw [Workspace.curvature, Vec.dot_eq, get_primal_lineAim δ hp, get_normal_line]
    simp [dotProduct]
  have hmove : (lineAim p δ).canMove = true ↔ Scalar.epsilon < p * p * (p * p) := by
    rw [Workspace.canMove_iff, dot_primal_lineAim δ hp]
  simp only [Iterate.equalityStep, hmove, slack_line, hpoint, hcurvature, Pi.zero_apply, zero_sub,
    neg_neg]

/-- The equality is met and folded in, and the point is on it if it could move. -/
theorem line_met (hp : Scalar.epsilon < p) :
    ∃ it', (lineOrigin p δ).iterate.Met (line p δ) 0 it' ∧ it'.workspace.count = 1 ∧
      it'.point.get 0 = if Scalar.epsilon < p * p * (p * p) then δ else 0 := by
  have hpos : 0 < p := Scalar.epsilon_pos.trans hp
  obtain ⟨direction, hdirection⟩ : ∃ direction, (lineAim p δ).dualDirection = .ok direction :=
    Workspace.exists_dualDirection_of_empty rfl
  -- the length of the step depends on the scale, whether the fold is accepted does not
  let step : ℝ := if Scalar.epsilon < p * p * (p * p) then δ / (p * p) else 0
  obtain ⟨ws₁, hplace⟩ : ∃ ws₁,
      ((lineAim p δ).relax step direction).place (.equality 0) step = .ok ws₁ :=
    ⟨_, dif_pos (Nat.succ_pos _)⟩
  obtain ⟨hroom, hws₁⟩ := Workspace.place_ok hplace
  have hpivot : Scalar.le (Scalar.abs (Vec.extend ws₁.image ws₁.count))
      (Scalar.epsilon * ws₁.pivotScale) = false := by
    have hlast : Vec.extend ws₁.image ws₁.count = p := by
      rw [hws₁]
      exact (Vec.extend_of_lt (lineAim p δ).image Nat.one_pos).trans
        (congrFun (get_image_lineAim δ hpos) 0)
    have hscale : ws₁.pivotScale = 1 := by rw [hws₁]; rfl
    rw [hlast, hscale, mul_one, Scalar.abs_real, abs_of_pos hpos, Scalar.le_real]
    exact decide_eq_false (not_le.mpr hp)
  have hfold : ws₁.fold = (_, true) := Workspace.fold_of_last (by rw [hws₁]; rfl) hpivot
  refine ⟨_, ⟨rfl, rfl, hdirection, (equalityStep_line δ hpos).symm, hplace, hfold⟩, ?_, ?_⟩
  · show ws₁.count + 1 = 1
    rw [hws₁]
    rfl
  · show (Vec.add (lineOrigin p δ).iterate.point (Vec.scale step (lineAim p δ).primal)).get 0 = _
    have hpoint : (lineOrigin p δ).iterate.point.get = 0 := point_origin _ _ hpos
    rw [Vec.get_add, Vec.get_scale, hpoint, get_primal_lineAim δ hpos, zero_add]
    show step * (p * p) = _
    have hne := hpos.ne'
    simp only [step]
    split
    · field_simp
    · rw [zero_mul]

/-- The solve has three states: before the equality, after it, and at the head of an iteration that
it does not begin. -/
theorem exists_run_line (hp : Scalar.epsilon < p) (limit : Nat) :
    ∃ it' : Iterate ℝ 1 1 0, it'.workspace.count = 1 ∧
      (it'.point.get 0 = if Scalar.epsilon < p * p * (p * p) then δ else 0) ∧
      (lineOrigin p δ).step (line p δ) limit 0 = .next ⟨it', .equality 1, 0, 1⟩ ∧
      Machine.step (line p δ) limit 0 ⟨it', .equality 1, 0, 1⟩ = .next ⟨it', .head, 0, 1⟩ ∧
      Machine.step (line p δ) limit 0 ⟨it', .head, 0, 1⟩ =
        .stop .proper ⟨it'.evaluate (line p δ), .head, 0, 2⟩ := by
  obtain ⟨it', hmet, hcount, hpoint⟩ := line_met δ hp
  refine ⟨it', hcount, hpoint, Machine.step_of_met hmet, Machine.step_of_allMet (le_refl 1),
    Machine.stop_of_near ?_⟩
  have hnone : (line p δ).infeasibilityAt it'.point = 0 := by
    rw [infeasibilityAt, Vec.sum_eq, Finset.univ_eq_empty, Finset.sum_empty]
  rw [hnone]
  simp

end Problem

namespace Program

theorem tolerance_line (hp : 0 < p) : (line p δ).tolerance = 0 := by
  refine (tolerance_nearest _ _ hp).trans ?_
  simp

/-- The solve ends at the head of its first iteration, and the point is on the equality only if it
could move. -/
theorem solve_line (hp : Scalar.epsilon < p) {limit : Int} (hlimit : 0 ≤ limit) :
    ∃ (answer : Solution ℝ 1 1 0) (history : List (Admission ℝ 1 1 0)) (last : Machine ℝ 1 1 0),
      ((line p δ).solve none limit none).outcome = .ok answer ∧ answer.status = .proper ∧
      (line p δ).Concludes limit none answer history last ∧ last.iterate.workspace.count = 1 ∧
      answer.point.get 0 = if Scalar.epsilon < p * p * (p * p) then δ else 0 := by
  have hpos : 0 < p := Scalar.epsilon_pos.trans hp
  obtain ⟨it', hcount, hpoint, hmet, hall, hstop⟩ := Problem.exists_run_line δ hp limit.toNat
  rw [← tolerance_line δ hpos] at hmet hall hstop
  obtain ⟨answer, hanswer, hproper, hconcludes⟩ :=
    exists_answer_nearest _ _ hpos Nat.one_ne_zero hlimit
      (course_nearest _ _ hpos ((Machine.Course.start.next hmet).next hall)) hstop
  refine ⟨answer, _, _, hanswer, hproper, hconcludes, hcount, ?_⟩
  rw [hconcludes.point_eq]
  exact hpoint

end Program

end Line

namespace Program

/-- On a line of moderate scale the point moves onto the equality. -/
theorem equalities_of_solve_line :
    (line 1 1).problem.quadratic.IsSymmetric ∧ (line 1 1).constraintCount ≠ 0 ∧
      ∃ answer : Solution ℝ 1 1 0, ((line 1 1).solve none 100 none).outcome = .ok answer ∧
        ∃ (slots : Nat) (history : List (Admission ℝ 1 slots 0)) (last : Machine ℝ 1 slots 0),
          (line 1 1).Concludes 100 none answer history last ∧
          ∀ i : Fin 1, ∃ a, ownFold history (.equality i) = some a ∧
            (SkipsOnlyZeros (a.before.foldPairs (Problem.line 1 1)) →
              (((Problem.line 1 1).defects answer.point).get i = 0 ↔
                Scalar.epsilon < a.before.directionSquare (Problem.line 1 1) ∨
                  ((Problem.line 1 1).defects a.before.iterate.point).get i = 0)) := by
  have hsymmetric : (line 1 1).problem.quadratic.IsSymmetric := Problem.isSymmetric_nearest _ _
  obtain ⟨answer, -, -, hanswer, -⟩ :=
    solve_line 1 Scalar.epsilon_lt_one (show (0 : Int) ≤ 100 by decide)
  exact ⟨hsymmetric, Nat.one_ne_zero, answer, hanswer,
    equalities_of_solve hsymmetric Nat.one_ne_zero hanswer⟩

/-- On a line of small scale the equality is announced as met and missed by its whole bound. -/
theorem not_equalities_of_proper :
    ¬ ∀ (program : Program ℝ) (guess : Option (Guess ℝ)) (limit : Int)
        (buffers : Option (Buffers ℝ))
        (answer : Solution ℝ program.dimension program.equalityCount program.inequalityCount),
      program.problem.quadratic.IsSymmetric →
        (program.solve guess limit buffers).outcome = .ok answer → answer.status = .proper →
          ∀ i, (program.problem.defects answer.point).get i = 0 := by
  intro hclaim
  have hsmall : Scalar.epsilon < (1 / 1000000 : ℝ) := by
    rw [Scalar.epsilon_real]
    norm_num
  obtain ⟨answer, history, last, hanswer, hproper, -, -, hpoint⟩ :=
    solve_line 1 hsmall (show (0 : Int) ≤ 100 by decide)
  have hstays : answer.point.get 0 = 0 := by
    rw [hpoint, if_neg]
    rw [Scalar.epsilon_real]
    norm_num
  have hmet : ((Problem.line (1 / 1000000) 1).defects answer.point).get 0 = 0 :=
    hclaim (line (1 / 1000000) 1) none 100 none answer (Problem.isSymmetric_nearest _ _)
      hanswer hproper ⟨0, Nat.one_pos⟩
  rw [Problem.get_defects, Problem.slack_line, hstays] at hmet
  norm_num at hmet

end Program

/-! ## The inequalities -/

/-- How much an inequality was short of its bound when it was last folded in. -/
noncomputable def shortLanding (P : Problem ℝ n e m) (history : List (Admission ℝ n slots m))
    (i : Fin m) : ℝ :=
  match ownFold history (.inequality i) with
  | some a => max (-(P.inequalities.get i).slack a.after.iterate.point) 0
  | none => 0

/-- The total violation of the inequalities is the sum of their negative slacks. -/
theorem sum_shortfalls (P : Problem ℝ n e m) (x : Vector ℝ n) :
    Vec.sum (P.shortfalls x) = ∑ i, max (-(P.inequalities.get i).slack x) 0 := by
  rw [Vec.sum_eq]
  apply Finset.sum_congr rfl
  intro i _
  simp only [Problem.shortfalls, Vector.get_map, Scalar.maximum_real, Constraint.slack, neg_sub]

/-- The number that a solve compares with the tolerance is the total violation. -/
theorem abs_infeasibilityAt (P : Problem ℝ n e m) (x : Vector ℝ n) :
    |P.infeasibilityAt x| = Vec.sum (P.shortfalls x) := by
  have hsum : P.infeasibilityAt x = -∑ i, max (-(P.inequalities.get i).slack x) 0 := by
    rw [Problem.infeasibilityAt, Vec.sum_eq, ← Finset.sum_neg_distrib]
    apply Finset.sum_congr rfl
    intro i _
    rw [Vector.get_map, Iterate.get_slacks, Scalar.minimum_real, ← min_neg_neg, neg_neg, neg_zero]
  rw [hsum, abs_neg, sum_shortfalls]
  exact abs_of_nonneg (Finset.sum_nonneg fun i _ => le_max_right _ _)

/-- Where no candidate is left and none is excluded, every inequality that is not active holds. -/
theorem slack_nonneg_of_exhausted {it : Iterate ℝ n slots m} {excluded : Vector Bool m}
    (hnone : it.mostViolated excluded = none) (hexcluded : excluded.any id = false) {i : Fin m}
    (hi : it.isActive.get i = false) : 0 ≤ it.slack.get i := by
  by_contra hneg
  have hfree : excluded.get i = false := by
    rw [Vector.any_eq_false] at hexcluded
    simpa [Vec.get_eq_getElem] using hexcluded i i.isLt
  have hcandidate : it.isCandidate excluded i = true := by
    simpa [Iterate.isCandidate, hi, hfree] using hneg
  rw [Iterate.mostViolated_eq_none.mp hnone i] at hcandidate
  cases hcandidate

namespace Program

variable {program : Program ℝ} {limit : Int} {buffers : Option (Buffers ℝ)}
  {answer : Solution ℝ program.dimension program.equalityCount program.inequalityCount}
  {history : List (Admission ℝ program.dimension slots program.inequalityCount)}
  {last : Machine ℝ program.dimension slots program.inequalityCount}

/-- What an active inequality is short of at the answer it was short of when it landed. -/
theorem Concludes.shortfall_eq (hsymmetric : program.problem.quadratic.IsSymmetric)
    (h : program.Concludes limit buffers answer history last) {i : Fin program.inequalityCount}
    (hclean : ∀ a, ownFold history (.inequality i) = some a →
      SkipsOnlyZeros (a.before.foldPairs program.problem))
    (hi : Label.inequality i.val ∈ answer.activeSet) :
    max (-(program.problem.inequalities.get i).slack answer.point) 0 =
      shortLanding program.problem history i := by
  obtain ⟨k, -, hk, hlabel⟩ := h.mem_activeSet.mp hi
  have hc : program.problem.constraint? (last.iterate.workspace.label k) =
      some (program.problem.inequalities.get i) := by
    rw [hlabel, Problem.constraint?_inequality]
  obtain ⟨a, ha, -, hkept⟩ := exists_landing hsymmetric h.course hk hc
  rw [hlabel] at ha
  rw [h.point_eq, hkept (hclean a ha)]
  simp only [shortLanding, ha]

/-- A proper answer is within the tolerance, or no inequality outside the active set is violated. -/
theorem Concludes.within_or_exhausted (h : program.Concludes limit buffers answer history last)
    (hproper : answer.status = .proper) :
    (Vec.sum (program.problem.shortfalls answer.point) ≤ program.tolerance ∧
        last.phase = .head) ∨
      (¬ Vec.sum (program.problem.shortfalls answer.point) ≤ program.tolerance ∧
        last.phase ≠ .head ∧
        ∀ i : Fin program.inequalityCount, Label.inequality i.val ∉ answer.activeSet →
          0 ≤ (program.problem.inequalities.get i).slack answer.point) := by
  obtain ⟨final, hends, -⟩ := h.ends
  rw [hproper] at hends
  have hstanding := standing_of_course h.course
  rw [h.point_eq]
  cases hends with
  | @near it iterations evaluations hnear =>
    -- the tolerance was tested here
    left
    change Scalar.le (Scalar.abs (program.problem.infeasibilityAt it.point)) _ = true at hnear
    refine ⟨?_, rfl⟩
    rw [← abs_infeasibilityAt]
    simpa using hnear
  | @exhausted it excluded iterations evaluations hnone hexcluded =>
    -- it was tested at the head of this iteration, and failed; the point has not moved since
    right
    change it.Rests program.problem program.tolerance at hstanding
    refine ⟨?_, by simp, ?_⟩
    · rw [← abs_infeasibilityAt]
      simpa using hstanding.violated
    · intro i hi
      have hinactive : it.isActive.get i = false :=
        Bool.eq_false_iff.mpr fun hactive => hi ((h.mem_activeSet_iff i).mpr hactive)
      have hslack := slack_nonneg_of_exhausted hnone hexcluded hinactive
      rw [hstanding.measured, Iterate.get_slacks] at hslack
      exact hslack

/-- Within the tolerance, or not: what a proper answer says about the inequalities. The violation
is within the tolerance exactly if it was measured last, at the head of an iteration. If no
candidate was left instead, it is beyond the tolerance and carried by the active inequalities
alone; where their folds skipped nothing but zeros it is what they were short of when they
landed. -/
theorem violation_of_solve (hsymmetric : program.problem.quadratic.IsSymmetric)
    {guess : Option (Guess ℝ)} (hconstraints : program.constraintCount ≠ 0)
    (h : (program.solve guess limit buffers).outcome = .ok answer)
    (hproper : answer.status = .proper) :
    ∃ (slots : Nat)
      (history : List (Admission ℝ program.dimension slots program.inequalityCount))
      (last : Machine ℝ program.dimension slots program.inequalityCount),
      program.Concludes limit buffers answer history last ∧
      (Vec.sum (program.problem.shortfalls answer.point) ≤ program.tolerance ↔
        last.phase = .head) ∧
      ((∀ (i : Fin program.inequalityCount)
          (a : Admission ℝ program.dimension slots program.inequalityCount),
          .inequality i.val ∈ answer.activeSet → ownFold history (.inequality i) = some a →
            SkipsOnlyZeros (a.before.foldPairs program.problem)) →
        (Vec.sum (program.problem.shortfalls answer.point) ≤ program.tolerance ↔
          ∑ i : Fin program.inequalityCount,
            (if Label.inequality i.val ∈ answer.activeSet
              then shortLanding program.problem history i else 0) ≤ program.tolerance)) := by
  obtain ⟨slots, history, last, hconcludes⟩ := concludes_of_solve hconstraints h
  refine ⟨slots, history, last, hconcludes, ?_⟩
  rcases hconcludes.within_or_exhausted hproper with ⟨hwithin, hhead⟩ |
    ⟨hbeyond, hhead, hinactive⟩
  · refine ⟨iff_of_true hwithin hhead, ?_⟩
    intro hclean
    apply iff_of_true hwithin
    refine le_trans ?_ hwithin
    rw [sum_shortfalls]
    apply Finset.sum_le_sum
    intro i _
    split
    · next hi => exact (hconcludes.shortfall_eq hsymmetric (fun a => hclean i a hi) hi).symm.le
    · exact le_max_right _ _
  · refine ⟨iff_of_false hbeyond hhead, ?_⟩
    intro hclean
    apply iff_of_false hbeyond
    intro hle
    -- only the active inequalities are violated, so both sums are the same
    have hsum : Vec.sum (program.problem.shortfalls answer.point) =
        ∑ i : Fin program.inequalityCount,
          (if Label.inequality i.val ∈ answer.activeSet
            then shortLanding program.problem history i else 0) := by
      rw [sum_shortfalls]
      apply Finset.sum_congr rfl
      intro i _
      split
      · next hi => exact hconcludes.shortfall_eq hsymmetric (fun a => hclean i a hi) hi
      · next hi => exact max_eq_right (neg_nonpos.mpr (hinactive i hi))
    exact hbeyond (hsum.trans_le hle)

end Program

/-! ### Two walls, the second of them missed

Where the scale is large, the part of the way to the second wall that the first one leaves open
counts as the whole way. -/

section Short

variable {p : ℝ} (hp : 1 ≤ p) (hnear : 3 / (p * p) < Scalar.epsilon)
include hp hnear

section Wall

variable {it : Iterate ℝ 2 2 2} (h : AtWall p it)
include h

/-- A quarter of the way is within the threshold of the whole way. -/
theorem AtWall.plan_short {c : Constraint ℝ 2} (hnormal : c.normal.get = ![1, 1])
    {direction : Vector ℝ (it.workspace.aim c.normal).count}
    (hfalls : Vec.extend direction 0 = 1 / 8) :
    (it.workspace.aim c.normal).plan direction 0 (-4)
      ((it.workspace.aim c.normal).curvature c) = .full (1 / (p * p)) := by
  have hblock := h.blocking (one_pos.trans_le hp) hfalls
  rw [h.curvature hnormal]
  apply Workspace.plan_of_near (h.canMove hp hnormal) hblock
  · rw [neg_neg]
    gcongr
    norm_num
  · rw [neg_neg, ← sub_div]
    norm_num
    exact hnear

/-- The second wall is folded in where the first one blocks. -/
theorem AtWall.exists_reached (hslack : it.slack.get 1 = -4) :
    ∃ it', it.Reached (Problem.corner p) 1 true it' ∧ it'.point.get = ![1, 1] ∧
      it'.isActive = it.isActive := by
  have hpos : 0 < p := one_pos.trans_le hp
  have hnormal := (Problem.get_normal_corner p).2
  generalize hc : (Problem.corner p).inequalities.get 1 = c at hnormal
  have hcount : (it.workspace.aim c.normal).count = 1 := h.count
  obtain ⟨direction, hdirection, hfalls⟩ := h.exists_direction hpos hnormal
  have hplan := h.plan_short hp hnear hnormal hfalls
  rw [← hslack] at hplan
  have hlast : Vec.extend (it.workspace.aim c.normal).image (it.workspace.aim c.normal).count =
      -p := by
    rw [hcount, Vec.extend_of_lt _ (Nat.lt_succ_self 1)]
    exact congrFun (h.get_image hnormal) 1
  have hlarge : Scalar.le (Scalar.abs
      (Vec.extend (it.workspace.aim c.normal).image (it.workspace.aim c.normal).count))
      (Scalar.epsilon * (it.workspace.aim c.normal).pivotScale) = false := by
    rw [hlast, show (it.workspace.aim c.normal).pivotScale = _ from h.scale, Scalar.abs_real,
      abs_neg, abs_of_pos hpos, max_eq_right (by linarith), Scalar.le_real]
    refine decide_eq_false (not_le.mpr ?_)
    rw [Scalar.epsilon_real]
    linarith
  have hfold : ((it.workspace.aim c.normal).shift (1 / (p * p)) direction).fold = (_, true) :=
    Workspace.fold_of_last (show (it.workspace.aim c.normal).count + 1 = 2 by omega) hlarge
  obtain ⟨it', hreached, -, hpoint, hactive⟩ :=
    Iterate.exists_reached hc.symm rfl hdirection hplan hfold
  refine ⟨it', hreached, ?_, hactive⟩
  rw [hpoint, Vec.get_add, Vec.get_scale, h.point, h.get_primal hnormal]
  funext i
  have hne := hpos.ne'
  fin_cases i
  · show 1 + 1 / (p * p) * 0 = 1
    ring
  · show 0 + 1 / (p * p) * (p * p) = 1
    field_simp
    ring

/-- From the first wall a solve goes to a head at which both walls are active. -/
theorem AtWall.exists_path_short {Q : Machine ℝ 2 2 2 → Prop} (hQ : HoldsInCorner p Q)
    {limit iterations evaluations : Nat} (hfirst : it.isActive.get 0 = true)
    (hsecond : it.isActive.get 1 = false) (hlimit : iterations < limit) :
    ∃ it', Machine.Path (Problem.corner p) limit (Program.corner p).tolerance Q
        ⟨it, .head, iterations, evaluations⟩ ⟨it', .head, iterations + 1, evaluations + 1⟩ ∧
      it'.point.get = ![1, 1] ∧ ∀ i, it'.isActive.get i = true := by
  obtain ⟨begun, it₁, fresh, hbegun, hchosen, hwall, -, hslack, hkept⟩ :=
    h.exists_begun hp hfirst hsecond hlimit
  obtain ⟨it₂, hreached, hpoint, hactive⟩ := hwall.exists_reached hp hnear hslack
  obtain ⟨events, hadded⟩ := Machine.step_of_reached hreached
  refine ⟨_, .next (hQ.idle _ rfl) hbegun (.next (hQ.idle _ rfl) hchosen
    (.next (hQ.wall _ _ _ _ _ hwall) hadded .refl)), hpoint, Fin.forall_fin_two.mpr ⟨?_, ?_⟩⟩
  · show (Vec.set it₂.isActive 1 true).get 0 = true
    rw [Vec.get_set, if_neg (by decide), hactive, hkept]
    exact hfirst
  · show (Vec.set it₂.isActive 1 true).get 1 = true
    rw [Vec.get_set, if_pos rfl]

end Wall

variable {limit : Int} (hlimit : 3 ≤ limit)
include hlimit

/-- The third iteration has nothing left to choose. -/
theorem Program.exists_path_short {Q : Machine ℝ 2 2 2 → Prop} (hQ : HoldsInCorner p Q) :
    ∃ last final : Machine ℝ 2 2 2,
      Machine.Path (Problem.corner p) limit.toNat (corner p).tolerance Q (Problem.cornerOrigin p)
        last ∧
      last.inHand (Problem.corner p) = none ∧
      last.step (Problem.corner p) limit.toNat (corner p).tolerance = .stop .proper final ∧
      last.iterate.point.get = ![1, 1] := by
  obtain ⟨it₁, hpath₁, hwall, hfirst, hsecond⟩ :=
    Problem.exists_path_wall hp hQ (show 0 < limit.toNat by omega)
  obtain ⟨it, hpath₂, hpoint, hactive⟩ :=
    hwall.exists_path_short hp hnear hQ hfirst hsecond (show 1 < limit.toNat by omega)
  have hviolated := violated_corner hp (x := it.point) (by
    rw [hpoint]
    show (1 : ℝ) + 1 ≤ 2
    norm_num)
  have hnone : (it.evaluate (Problem.corner p)).mostViolated (Vector.replicate 2 false) = none :=
    Iterate.mostViolated_eq_none.mpr fun i => Bool.eq_false_iff.mpr fun hi => by
      have hfree := ((Iterate.isCandidate_replicate _ _).mp hi).1
      cases (hactive i).symm.trans hfree
  have hbegun : Machine.step (Problem.corner p) limit.toNat (corner p).tolerance
      ⟨it, .head, 2, 3⟩ = .next ⟨{ it.evaluate (Problem.corner p) with
        workspace := it.workspace.save it.point it.value }, .select (Vector.replicate 2 false),
          3, 4⟩ := Machine.step_of_begun hviolated (show 2 < limit.toNat by omega)
  exact ⟨_, _, (hpath₁.trans hpath₂).trans (.next (hQ.idle _ rfl) hbegun .refl), rfl,
    Machine.stop_of_exhausted hnone (by simp), hpoint⟩

/-- What holds where a candidate is in hand holds in every state of the solve. -/
theorem Program.forall_short {Q : Machine ℝ 2 2 2 → Prop} (hQ : HoldsInCorner p Q)
    {history : List (Admission ℝ 2 2 2)} {s : Machine ℝ 2 2 2}
    (h : (corner p).Course limit none history s) : Q s := by
  obtain ⟨last, final, hpath, hidle, hstop, -⟩ := exists_path_short hp hnear hlimit hQ
  exact forall_nearest _ _ (one_pos.trans_le hp) hpath (hQ.idle _ hidle)
    (Machine.isLast_of_stop hstop) h

/-- The solve ends with both walls active and without another look at the second one, which the
point is short of by three. -/
theorem Program.solve_short :
    ∃ answer : Solution ℝ 2 0 2, ((corner p).solve none limit none).outcome = .ok answer ∧
      answer.status = .proper ∧ answer.point.get = ![1, 1] := by
  obtain ⟨last, final, hpath, -, hstop, hpoint⟩ :=
    exists_path_short hp hnear hlimit (Problem.skipsOnlyZeros_corner hp)
  obtain ⟨history, hcourse⟩ := hpath.exists_course
  obtain ⟨answer, hanswer, hproper, hconcludes⟩ :=
    exists_answer_nearest _ _ (one_pos.trans_le hp) two_ne_zero (by omega)
      (course_nearest _ _ (one_pos.trans_le hp) hcourse) hstop
  refine ⟨answer, hanswer, hproper, ?_⟩
  rw [hconcludes.point_eq]
  exact hpoint

end Short

/-- At this scale three units of way are below the threshold. -/
theorem Scalar.near_billion : 3 / (1000000000 * 1000000000 : ℝ) < Scalar.epsilon := by
  rw [Scalar.epsilon_real]
  norm_num

namespace Program

/-- In a corner of large scale both walls end up active, and what the second one was short of when
it landed is beyond the tolerance. -/
theorem violation_of_solve_corner :
    (corner 1000000000).problem.quadratic.IsSymmetric ∧ (corner 1000000000).constraintCount ≠ 0 ∧
      ∃ answer : Solution ℝ 2 0 2,
        ((corner 1000000000).solve none 100 none).outcome = .ok answer ∧
        answer.status = .proper ∧
        ∃ (slots : Nat) (history : List (Admission ℝ 2 slots 2)) (last : Machine ℝ 2 slots 2),
          (corner 1000000000).Concludes 100 none answer history last ∧
          (Vec.sum ((Problem.corner 1000000000).shortfalls answer.point) ≤
              (corner 1000000000).tolerance ↔ last.phase = .head) ∧
          (Vec.sum ((Problem.corner 1000000000).shortfalls answer.point) ≤
              (corner 1000000000).tolerance ↔
            ∑ i : Fin 2, (if Label.inequality i.val ∈ answer.activeSet
              then shortLanding (Problem.corner 1000000000) history i else 0) ≤
                (corner 1000000000).tolerance) := by
  have hsymmetric : (corner 1000000000).problem.quadratic.IsSymmetric :=
    Problem.isSymmetric_nearest _ _
  have hlarge : (1 : ℝ) ≤ 1000000000 := by norm_num
  obtain ⟨answer, hanswer, hproper, -⟩ :=
    solve_short hlarge Scalar.near_billion (show (3 : Int) ≤ 100 by decide)
  obtain ⟨slots, history, last, hconcludes, hwithin, hlanded⟩ :=
    violation_of_solve hsymmetric two_ne_zero hanswer hproper
  obtain rfl : slots = 2 := hconcludes.course.slots_eq
  refine ⟨hsymmetric, two_ne_zero, answer, hanswer, hproper, 2, history, last, hconcludes,
    hwithin, hlanded fun i a _ ha => ?_⟩
  obtain ⟨before, hbefore⟩ := hconcludes.course.exists_before (List.mem_of_find?_eq_some ha)
  exact forall_short hlarge Scalar.near_billion (by decide)
    (Problem.skipsOnlyZeros_corner hlarge) hbefore

/-- There the answer is announced as proper and violates the second wall by three. -/
theorem not_violation_le_of_proper :
    ¬ ∀ (program : Program ℝ) (guess : Option (Guess ℝ)) (limit : Int)
        (buffers : Option (Buffers ℝ))
        (answer : Solution ℝ program.dimension program.equalityCount program.inequalityCount),
      program.problem.quadratic.IsSymmetric → program.constraintCount ≠ 0 →
        (program.solve guess limit buffers).outcome = .ok answer → answer.status = .proper →
          Vec.sum (program.problem.shortfalls answer.point) ≤ program.tolerance := by
  intro hclaim
  have hlarge : (1 : ℝ) ≤ 1000000000 := by norm_num
  obtain ⟨answer, hanswer, hproper, hpoint⟩ :=
    solve_short hlarge Scalar.near_billion (show (3 : Int) ≤ 100 by decide)
  have hwithin : Vec.sum ((Problem.corner 1000000000).shortfalls answer.point) ≤
      (corner 1000000000).tolerance :=
    hclaim (corner 1000000000) none 100 none answer (Problem.isSymmetric_nearest _ _) two_ne_zero
      hanswer hproper
  have hviolated := violated_corner (x := answer.point) hlarge (by
    rw [hpoint]
    show (1 : ℝ) + 1 ≤ 2
    norm_num)
  rw [Scalar.le_real, Scalar.abs_real, abs_infeasibilityAt] at hviolated
  exact of_decide_eq_false hviolated hwithin

end Program

end ActiveSet

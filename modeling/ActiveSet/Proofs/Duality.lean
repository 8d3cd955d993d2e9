import ActiveSet.Proofs.Bookkeeping
import ActiveSet.Proofs.Multipliers
/-
  Weak duality of every answer of a separated run

  Whatever its status, an answer of a separated run comes with multipliers
  that make its point the minimum of the program in which only the active
  constraints count: the gradient is the combination of the normals, the
  equalities hold, no multiplier of an inequality is negative, and no active
  inequality is more than satisfied. No feasible point has a lower objective
  then, and none but the point itself the same.

  An answer that is read off in the middle of an iteration lacks the
  candidate's own multiplier. It does not miss it: a candidate that nothing
  can move towards has been dropped for by no step yet (`balanced_of_stuck`).
-/

open Matrix

namespace ActiveSet

variable {n e m slots : Nat}

/-! ## Separated runs -/

/-- Whether no skipped rotation had anything to clear and no direction is short but not zero. -/
def Machine.Separated (P : Problem ℝ n e m) (limit : Nat) (tolerance : ℝ)
    (start : Machine ℝ n slots m) : Prop :=
  ∀ history s, Machine.Course P limit tolerance start history s →
    (∀ a ∈ history, SkipsOnlyZeros (a.before.foldPairs P)) ∧
      (s.directionSquare P = 0 ∨ Scalar.epsilon < s.directionSquare P)

namespace Machine

variable {P : Problem ℝ n e m} {limit : Nat} {tolerance : ℝ} {start s s' : Machine ℝ n slots m}
  {history : List (Admission ℝ n slots m)} {status : Status}

/-- The squared length that is compared with the threshold, for the candidate in hand. -/
theorem square_of_inHand {candidate : Fin m}
    (hinHand : s.inHand P = some (P.inequalities.get candidate))
    (hsquare : s.directionSquare P = 0 ∨ Scalar.epsilon < s.directionSquare P)
    (c : Constraint ℝ n) (hc : c = P.inequalities.get candidate) :
    Vec.dot (s.iterate.workspace.aim c.normal).primal
        (s.iterate.workspace.aim c.normal).primal = 0 ∨
      Scalar.epsilon <
        Vec.dot (s.iterate.workspace.aim c.normal).primal
          (s.iterate.workspace.aim c.normal).primal := by
  rw [← hc] at hinHand
  rw [directionSquare_of_inHand hinHand] at hsquare
  exact hsquare

/-- The balance is kept from a state in which nothing is active. -/
theorem upkeep_balanced (hsymmetric : P.quadratic.IsSymmetric)
    (hphase : start.phase = .equality 0) (hstanding : Standing P tolerance start)
    (hcolumns : Columns P [] start.iterate.snapshot) (hstart : start.iterate.snapshot.Balanced P)
    (hseparated : Separated P limit tolerance start) :
    Upkeep P limit tolerance start (fun _ t => t.Balanced P)
      fun _ candidate it => it.Balanced P candidate where
  origin := hstart
  met hcourse _ _ h hmet :=
    balanced_of_met hsymmetric (columns_of_course hphase hstanding hcolumns hcourse)
      (hseparated _ _ hcourse).1 h hmet
  chosen _ _ h _ hplace := balanced_of_chosen h hplace
  dropped hcourse hinHand hadds h hdropped :=
    balanced_of_dropped hsymmetric hadds (columns_of_course hphase hstanding hcolumns hcourse)
      (hseparated _ _ hcourse).1 (square_of_inHand hinHand (hseparated _ _ hcourse).2) h hdropped
  added {history s s' it' candidate isActive} hcourse _ hadds h hreached hit := by
    have hadded : it'.snapshot.Balanced P := balanced_of_added hsymmetric hadds
      (columns_of_course hphase hstanding hcolumns hcourse) (hseparated _ _ hcourse).1 h hreached
    rw [hit]
    exact hadded

section Stuck

variable {it it' : Iterate ℝ n slots m} {candidate : Fin m}
  (hcolumns : Columns P history it.snapshot)
  (hclean : ∀ a ∈ history, SkipsOnlyZeros (a.before.foldPairs P))
  (hsquare : ∀ c, c = P.inequalities.get candidate →
    Vec.dot (it.workspace.aim c.normal).primal (it.workspace.aim c.normal).primal = 0 ∨
      Scalar.epsilon <
        Vec.dot (it.workspace.aim c.normal).primal (it.workspace.aim c.normal).primal)
include hcolumns hclean hsquare

/-- The normal of a candidate that nothing can move towards is a combination of the active normals
in which no inequality has a positive weight. -/
theorem exists_weight_of_stuck (hstuck : it.Stuck P candidate it') :
    ∃ weight : Nat → ℝ,
      (P.inequalities.get candidate).normal.get =
          P.weighted it.workspace.label weight it.workspace.count ∧
        ∀ k, e ≤ k → k < it.workspace.count → weight k ≤ 0 := by
  cases hstuck with
  | @intro c ws direction hc hws hdirection hplan =>
    subst hws
    obtain ⟨hstay, hblock⟩ := Workspace.plan_eq_stay_iff.mp hplan
    have hzero := Workspace.primal_eq_zero_of_stay (hsquare c hc) hstay
    have hsplit := hcolumns.normal_split hclean hdirection
    rw [hzero, Matrix.mulVec_zero, zero_add, hc] at hsplit
    exact ⟨_, hsplit, fun k hek hk => Workspace.le_zero_of_blocking_none hblock hek hk⟩

/-- A candidate that nothing can move towards has no weight: it depends on the active constraints,
so no constraint was dropped for it. -/
theorem balanced_of_stuck (h : it.Balanced P candidate) (hstuck : it.Stuck P candidate it') :
    it.snapshot.Balanced P := by
  obtain ⟨weight, hweight, -⟩ := exists_weight_of_stuck hcolumns hclean hsquare hstuck
  rcases h.started with hnone | hindependent
  · refine ⟨?_, h.value⟩
    have hgradient := h.gradient
    rw [Problem.weighted, Finset.sum_range_succ, hnone, zero_smul, add_zero] at hgradient
    exact hgradient
  · exact absurd hweight (hindependent weight)

end Stuck

/-- The state that an answer is read off is balanced. -/
theorem balanced_of_ends (hsymmetric : P.quadratic.IsSymmetric)
    (hphase : start.phase = .equality 0) (hstanding : Standing P tolerance start)
    (hcolumns : Columns P [] start.iterate.snapshot) (hstart : start.iterate.snapshot.Balanced P)
    (hseparated : Separated P limit tolerance start)
    (hcourse : Course P limit tolerance start history s)
    (h : Ends P limit tolerance s status s') : s.iterate.snapshot.Balanced P := by
  have hholds := (upkeep_balanced hsymmetric hphase hstanding hcolumns hstart hseparated).holds
    hphase hstanding hcourse
  cases h with
  | near _ => exact hholds
  | limit _ => exact hholds
  | exhausted _ _ => exact hholds
  | degenerate _ => exact hholds
  | stuck hstuck =>
    exact balanced_of_stuck (columns_of_course hphase hstanding hcolumns hcourse)
      (hseparated _ _ hcourse).1 (square_of_inHand rfl (hseparated _ _ hcourse).2) hholds.1 hstuck

/-- No dual value of an inequality is negative in the state that an answer is read off. -/
theorem dualFeasible_of_ends (hphase : start.phase = .equality 0)
    (hstanding : Standing P tolerance start) (hcolumns : Columns P [] start.iterate.snapshot)
    (hcourse : Course P limit tolerance start history s)
    (h : Ends P limit tolerance s status s') : s.iterate.snapshot.DualFeasible e := by
  have hholds := (upkeep_dualFeasible hphase hstanding hcolumns).holds hphase hstanding hcourse
  cases h with
  | near _ => exact hholds
  | limit _ => exact hholds
  | exhausted _ _ => exact hholds
  | degenerate _ => exact hholds
  | stuck _ => exact fun k hek hk => Iterate.DualFeasible.nonneg hholds.1 k hek (le_of_lt hk)

end Machine

/-! ## Strict convexity -/

/-- The quadratic form of a matrix with the inverse `J Jᵀ`, as a squared length. -/
theorem dotProduct_mulVec_self {A : Mat ℝ n n} {J : Matrix (Fin n) (Fin n) ℝ}
    (hinverse : A.toMatrix * (J * Jᵀ) = 1) (w : Fin n → ℝ) :
    J *ᵥ (Jᵀ *ᵥ (A.toMatrix *ᵥ w)) = w ∧
      w ⬝ᵥ A.toMatrix *ᵥ w = (Jᵀ *ᵥ (A.toMatrix *ᵥ w)) ⬝ᵥ (Jᵀ *ᵥ (A.toMatrix *ᵥ w)) := by
  have hback : J *ᵥ (Jᵀ *ᵥ (A.toMatrix *ᵥ w)) = w := by
    rw [Matrix.mulVec_mulVec, Matrix.mulVec_mulVec, mul_eq_one_comm.mp hinverse, Matrix.one_mulVec]
  refine ⟨hback, ?_⟩
  calc w ⬝ᵥ A.toMatrix *ᵥ w
      = (A.toMatrix *ᵥ w) ⬝ᵥ J *ᵥ (Jᵀ *ᵥ (A.toMatrix *ᵥ w)) := by rw [hback, dotProduct_comm]
    _ = (Jᵀ *ᵥ (A.toMatrix *ᵥ w)) ⬝ᵥ (Jᵀ *ᵥ (A.toMatrix *ᵥ w)) := dotProduct_mulVec_eq _ _ _

/-- Where the gradient does not point away from `y`, the objective is least, and only there. -/
theorem objective_le_of_gradient {P : Problem ℝ n e m} (hsymmetric : P.quadratic.IsSymmetric)
    {J : Matrix (Fin n) (Fin n) ℝ} (hinverse : P.quadratic.toMatrix * (J * Jᵀ) = 1)
    {x y : Vector ℝ n} (hpull : 0 ≤ (y.get - x.get) ⬝ᵥ (P.gradient x).get) :
    P.objective x ≤ P.objective y ∧ (P.objective y = P.objective x → y = x) := by
  obtain ⟨hback, hsquare⟩ := dotProduct_mulVec_self hinverse (y.get - x.get)
  have hvalue := Problem.objective_expand hsymmetric x y
  rw [hsquare] at hvalue
  have hnonneg : 0 ≤ (y.get - x.get) ⬝ᵥ P.quadratic.toMatrix *ᵥ (y.get - x.get) := by
    rw [hsquare]
    exact Finset.sum_nonneg fun i _ => mul_self_nonneg _
  rw [hsquare] at hnonneg
  constructor
  · linarith
  · intro heq
    -- with the same value the square is zero, and the points are the same
    have hzero : Jᵀ *ᵥ (P.quadratic.toMatrix *ᵥ (y.get - x.get)) = 0 :=
      dotProduct_self_eq_zero.mp (by linarith)
    rw [hzero, Matrix.mulVec_zero] at hback
    apply Vec.ext_get
    intro i
    exact congrFun (sub_eq_zero.mp hback.symm) i

/-- The slack is affine: its change from one point to another. -/
theorem Constraint.dot_normal (c : Constraint ℝ n) (x y : Vector ℝ n) :
    (y.get - x.get) ⬝ᵥ c.normal.get = c.slack y - c.slack x := by
  rw [slack, slack, Vec.dot_eq, Vec.dot_eq, sub_dotProduct, dotProduct_comm y.get,
    dotProduct_comm x.get]
  ring

/-- A combination of normals points from one point to another if it does term by term: the weight
has the sign of the change of the slack. -/
theorem Problem.dot_weighted_nonneg {P : Problem ℝ n e m} {label : Nat → Label}
    {weight : Nat → ℝ} {count : Nat} {x y : Vector ℝ n}
    (h : ∀ k < count, ∀ c, P.constraint? (label k) = some c →
      0 ≤ weight k * (c.slack y - c.slack x)) :
    0 ≤ (y.get - x.get) ⬝ᵥ P.weighted label weight count := by
  rw [weighted, dotProduct_sum]
  apply Finset.sum_nonneg
  intro k hk
  rw [dotProduct_smul, smul_eq_mul]
  cases hc : P.constraint? (label k) with
  | none =>
    rw [normal, hc]
    simp
  | some c =>
    rw [Problem.normal_of_constraint? hc, c.dot_normal]
    exact h k (Finset.mem_range.mp hk) c hc

/-! ## The answer -/

/-- Whether the point satisfies all constraints. -/
structure Problem.Feasible (P : Problem ℝ n e m) (y : Vector ℝ n) : Prop where
  equalities : ∀ i, (P.defects y).get i = 0
  inequalities : ∀ i, 0 ≤ (P.slacks y).get i

/-- Whether the multipliers of an answer prove that no feasible point is better. -/
structure Solution.DualFeasible (P : Problem ℝ n e m) (answer : Solution ℝ n e m) : Prop where
  stationary : P.gradient answer.point =
    Vec.add (Problem.combine P.equalities answer.equalityMultipliers)
      (Problem.combine P.inequalities answer.inequalityMultipliers)
  equalities : ∀ i, (P.defects answer.point).get i = 0
  nonneg : ∀ i, 0 ≤ answer.inequalityMultipliers.get i
  active : ∀ l ∈ answer.activeSet, ∃ i : Fin m, l = .inequality i ∧
    (P.slacks answer.point).get i ≤ 0
  value : answer.value = P.objective answer.point

namespace Program

variable {program : Program ℝ} {limit : Int} {buffers : Option (Buffers ℝ)}
  {answer : Solution ℝ program.dimension program.equalityCount program.inequalityCount}
  {history : List (Admission ℝ program.dimension slots program.inequalityCount)}
  {last : Machine ℝ program.dimension slots program.inequalityCount}

/-- Whether the run of a solve is separated: the pairs that its folds skip are zero, and every
`z · z` that is compared with the threshold is zero or above it. Folds that are refused and
deletions need no such condition; the former are undone and the latter skip nothing. -/
def Separated (program : Program ℝ) (limit : Int) (buffers : Option (Buffers ℝ)) : Prop :=
  ∀ (slots : Nat) (history : List (Admission ℝ program.dimension slots program.inequalityCount))
    (s : Machine ℝ program.dimension slots program.inequalityCount),
    program.Course limit buffers history s →
      (∀ a ∈ history, SkipsOnlyZeros (a.before.foldPairs program.problem)) ∧
        (s.directionSquare program.problem = 0 ∨
          Scalar.epsilon < s.directionSquare program.problem)

theorem Separated.machine (h : program.Separated limit buffers)
    {L : Mat ℝ program.dimension program.dimension}
    {workspace : Workspace ℝ program.dimension slots}
    (hfactor : Dense.factor program.problem.quadratic = .ok L)
    (hroom : program.room buffers = .ok ⟨slots, workspace⟩) :
    Machine.Separated program.problem limit.toNat program.tolerance (program.origin L workspace) :=
  fun history s hs => h _ history s ⟨L, workspace, hfactor, hroom, hs⟩

/-- At the unconstrained minimum the gradient is zero. -/
theorem gradient_unconstrainedPoint {P : Problem ℝ n e m} (hsymmetric : P.quadratic.IsSymmetric)
    {L : Mat ℝ n n} (hfactor : Dense.factor P.quadratic = .ok L) :
    (P.gradient (P.unconstrainedPoint L)).get = 0 := by
  rw [Problem.get_gradient, Problem.unconstrainedPoint, Vec.get_neg, Matrix.mulVec_neg,
    Cholesky.mulVec_solve hsymmetric (Cholesky.factor_eq_ok.mp hfactor), neg_add_cancel]

/-- No point has a lower objective than the unconstrained minimum. -/
theorem objective_unconstrainedPoint_le {P : Problem ℝ n e m}
    (hsymmetric : P.quadratic.IsSymmetric) {L : Mat ℝ n n}
    (hfactor : Dense.factor P.quadratic = .ok L) (y : Vector ℝ n) :
    P.objective (P.unconstrainedPoint L) ≤ P.objective y := by
  refine (objective_le_of_gradient hsymmetric
    (Cholesky.mul_basis hsymmetric (Cholesky.factor_eq_ok.mp hfactor)) ?_).1
  rw [gradient_unconstrainedPoint hsymmetric hfactor, dotProduct_zero]

theorem unconstrainedValue_eq {P : Problem ℝ n e m} {x : Vector ℝ n}
    (h : (P.gradient x).get = 0) : P.unconstrainedValue x = P.objective x := by
  rw [Problem.get_gradient] at h
  rw [Problem.unconstrainedValue, Problem.objective_eq, Vec.dot_eq, Scalar.half_real,
    eq_neg_of_add_eq_zero_left h, dotProduct_neg, dotProduct_comm x.get]
  ring

theorem balanced_origin (hsymmetric : program.problem.quadratic.IsSymmetric)
    {L : Mat ℝ program.dimension program.dimension}
    (hfactor : Dense.factor program.problem.quadratic = .ok L)
    (workspace : Workspace ℝ program.dimension slots) :
    (program.origin L workspace).iterate.snapshot.Balanced program.problem := by
  have hgradient := gradient_unconstrainedPoint hsymmetric hfactor
  exact ⟨hgradient, unconstrainedValue_eq hgradient⟩

/-- What holds of the state that an answer of a separated run is read off. -/
theorem Concludes.balanced (hsymmetric : program.problem.quadratic.IsSymmetric)
    (hseparated : program.Separated limit buffers)
    (h : program.Concludes limit buffers answer history last) :
    last.iterate.snapshot.Balanced program.problem := by
  obtain ⟨final, hends, -⟩ := h.ends
  obtain ⟨L, workspace, hfactor, hroom, hcourse⟩ := h.course
  exact Machine.balanced_of_ends hsymmetric rfl (Machine.standing_start _ _ _ _ _)
    (columns_origin hsymmetric hfactor workspace) (balanced_origin hsymmetric hfactor workspace)
    (hseparated.machine hfactor hroom) hcourse hends

/-- No dual value of an inequality is negative in the state that an answer is read off, whether
the run is separated or not. -/
theorem Concludes.signs (hsymmetric : program.problem.quadratic.IsSymmetric)
    (h : program.Concludes limit buffers answer history last) :
    last.iterate.snapshot.DualFeasible program.equalityCount := by
  obtain ⟨final, hends, -⟩ := h.ends
  obtain ⟨L, workspace, hfactor, -, hcourse⟩ := h.course
  exact Machine.dualFeasible_of_ends rfl (Machine.standing_start _ _ _ _ _)
    (columns_origin hsymmetric hfactor workspace) hcourse hends

/-- A multiplier of an inequality is the dual value of its slot, or zero without one. -/
theorem Concludes.multipliers_nonneg (hsymmetric : program.problem.quadratic.IsSymmetric)
    (h : program.Concludes limit buffers answer history last) (i : Fin program.inequalityCount) :
    0 ≤ answer.inequalityMultipliers.get i := by
  obtain ⟨hread, houtside⟩ := h.readOff
  by_cases hi : .inequality i.val ∈ answer.activeSet
  · obtain ⟨k, hmet, hk, hki⟩ := h.mem_activeSet.mp hi
    rw [hread.inequality k hmet hk i hki]
    exact h.signs hsymmetric k hmet hk
  · exact (houtside i hi).ge

/-- In a separated run every active equality has landed on its bound and stays there, and every
active inequality has landed at its bound or short of it. -/
theorem slack_eq_of_course (hsymmetric : program.problem.quadratic.IsSymmetric)
    (hseparated : program.Separated limit buffers)
    {s : Machine ℝ program.dimension slots program.inequalityCount}
    (h : program.Course limit buffers history s) {k : Nat} (hk : k < s.iterate.workspace.count) :
    (∀ i : Fin program.equalityCount, s.iterate.workspace.label k = .equality i →
      (program.problem.equalities.get i).slack s.iterate.point = 0) ∧
    ∀ i : Fin program.inequalityCount, s.iterate.workspace.label k = .inequality i →
      (program.problem.inequalities.get i).slack s.iterate.point ≤ 0 := by
  have hclean := (hseparated _ _ _ h).1
  have hlanding {c : Constraint ℝ program.dimension}
      (hc : program.problem.constraint? (s.iterate.workspace.label k) = some c) :
      ∃ a ∈ history, a.label = s.iterate.workspace.label k ∧ Landed program.problem a ∧
        c.slack s.iterate.point = c.slack a.after.iterate.point := by
    obtain ⟨a, ha, hlanded, hkept⟩ := exists_landing hsymmetric h hk hc
    have hmem : a ∈ history := List.mem_of_find?_eq_some ha
    exact ⟨a, hmem, by simpa [ownFold] using List.find?_some ha, hlanded, hkept (hclean a hmem)⟩
  constructor
  · intro i hi
    have hc : program.problem.constraint? (s.iterate.workspace.label k) =
        some (program.problem.equalities.get i) := by
      rw [hi, Problem.constraint?_equality]
    obtain ⟨a, hmem, hname, hlanded, hslack⟩ := hlanding hc
    -- the direction was not zero when the equality was accepted, so it was above the threshold
    obtain ⟨earlier, hbefore⟩ := h.exists_before hmem
    have hsquare := (hseparated _ _ _ hbefore).2
    rw [hslack, hlanded.equality i (hname.trans hi),
      if_pos (hsquare.resolve_left hlanded.moved)]
  · intro i hi
    have hc : program.problem.constraint? (s.iterate.workspace.label k) =
        some (program.problem.inequalities.get i) := by
      rw [hi, Problem.constraint?_inequality]
    obtain ⟨a, -, hname, hlanded, hslack⟩ := hlanding hc
    rw [hslack]
    exact hlanded.inequality i (hname.trans hi)

/-- A combination of active normals that has no negative weight on an inequality points to every
feasible point. -/
theorem dot_weighted_nonneg_of_course (hsymmetric : program.problem.quadratic.IsSymmetric)
    (hseparated : program.Separated limit buffers)
    {s : Machine ℝ program.dimension slots program.inequalityCount}
    (h : program.Course limit buffers history s) {weight : Nat → ℝ}
    (hseating : Seating program.equalityCount s.iterate.workspace.count s.iterate.workspace.label
      s.iterate.isActive)
    (hweight : ∀ k, program.equalityCount ≤ k → k < s.iterate.workspace.count → 0 ≤ weight k)
    {y : Vector ℝ program.dimension} (hy : program.problem.Feasible y) :
    0 ≤ (y.get - s.iterate.point.get) ⬝ᵥ
      program.problem.weighted s.iterate.workspace.label weight s.iterate.workspace.count := by
  apply Problem.dot_weighted_nonneg
  intro k hk c hc
  obtain ⟨hequality, hinequality⟩ := slack_eq_of_course hsymmetric hseparated h hk
  rcases Nat.lt_or_ge k program.equalityCount with hlt | hge
  -- both points are on an equality
  · have hlabel := hseating.equality k hlt
    rw [hlabel, Problem.constraint?_equality _ ⟨k, hlt⟩] at hc
    cases hc
    have hzero := hy.equalities ⟨k, hlt⟩
    rw [Problem.get_defects] at hzero
    rw [hzero, hequality ⟨k, hlt⟩ hlabel, sub_zero, mul_zero]
  · obtain ⟨i, hi, -⟩ := hseating.inequality k hge hk
    rw [hi, Problem.constraint?_inequality] at hc
    cases hc
    have hnonneg := hy.inequalities i
    rw [Iterate.get_slacks] at hnonneg
    have hactive := hinequality i hi
    exact mul_nonneg (hweight k hge hk) (by linarith)

/-- The answer of a separated run is dual feasible. -/
theorem Concludes.dualFeasible (hsymmetric : program.problem.quadratic.IsSymmetric)
    (hseparated : program.Separated limit buffers)
    (h : program.Concludes limit buffers answer history last) :
    answer.DualFeasible program.problem := by
  have hbalanced := h.balanced hsymmetric hseparated
  obtain ⟨hcount, hseating⟩ := h.seating
  have hcombined := combined_ofMembers (P := program.problem) hcount hseating h.ofMembers
  refine ⟨Vec.ext_get ?_, ?_, ?_, ?_, ?_⟩
  · intro i
    have hgradient := hbalanced.gradient
    rw [h.point_eq, Vec.get_add]
    exact congrFun (hgradient.trans hcombined.symm) i
  · intro i
    rw [Problem.get_defects]
    rw [h.point_eq]
    exact (slack_eq_of_course hsymmetric hseparated h.course
      (lt_of_lt_of_le i.isLt hseating.met_le)).1 i (hseating.equality i i.isLt)
  · exact h.multipliers_nonneg hsymmetric
  · intro l hl
    obtain ⟨k, hmet, hk, rfl⟩ := h.mem_activeSet.mp hl
    obtain ⟨i, hi, -⟩ := hseating.inequality k hmet hk
    refine ⟨i, hi, ?_⟩
    rw [Iterate.get_slacks, h.point_eq]
    exact (slack_eq_of_course hsymmetric hseparated h.course hk).2 i hi
  · have hvalue := hbalanced.value
    rw [h.value_eq, h.point_eq]
    exact hvalue

/-- The gradient at the answer does not point away from a feasible point. -/
theorem Concludes.pull_nonneg (hsymmetric : program.problem.quadratic.IsSymmetric)
    (hseparated : program.Separated limit buffers)
    (h : program.Concludes limit buffers answer history last)
    {y : Vector ℝ program.dimension} (hy : program.problem.Feasible y) :
    0 ≤ (y.get - answer.point.get) ⬝ᵥ (program.problem.gradient answer.point).get := by
  have hgradient : (program.problem.gradient last.iterate.point).get =
      program.problem.weighted last.iterate.workspace.label last.iterate.workspace.dual
        last.iterate.workspace.count := (h.balanced hsymmetric hseparated).gradient
  rw [h.point_eq, hgradient]
  exact dot_weighted_nonneg_of_course hsymmetric hseparated h.course h.seating.2
    (h.signs hsymmetric) hy

/-- Without constraints the unconstrained minimum is the answer, and no multiplier is needed. -/
theorem dualFeasible_unconstrained (hsymmetric : program.problem.quadratic.IsSymmetric)
    {L : Mat ℝ program.dimension program.dimension}
    (hfactor : Dense.factor program.problem.quadratic = .ok L)
    (hnone : program.constraintCount = 0) :
    (Solution.unconstrained program.problem (program.problem.unconstrainedPoint L)
      (program.problem.unconstrainedValue (program.problem.unconstrainedPoint L))).DualFeasible
        program.problem := by
  have hgradient := gradient_unconstrainedPoint hsymmetric hfactor
  have hequalities : program.equalityCount = 0 := (Nat.add_eq_zero_iff.mp hnone).1
  refine ⟨Vec.ext_get ?_, ?_, ?_, ?_, ?_⟩
  · intro i
    rw [Vec.get_add, Problem.get_combine, Problem.get_combine]
    simp only [Solution.unconstrained, Vec.get_zero, zero_smul, Finset.sum_const_zero, add_zero,
      hgradient]
  · intro i
    exact absurd i.isLt (by omega)
  · intro i
    simp [Solution.unconstrained]
  · intro l hl
    exact absurd hl List.not_mem_nil
  · exact unconstrainedValue_eq hgradient

/-- Weak duality. Every answer of a separated run, of any status and from any place at which a
solve ends, is dual feasible; so no feasible point has a lower objective, and none but the answer
itself the same. -/
theorem weak_duality_of_solve (hsymmetric : program.problem.quadratic.IsSymmetric)
    {guess : Option (Guess ℝ)} (hseparated : program.Separated limit buffers)
    (h : (program.solve guess limit buffers).outcome = .ok answer) :
    answer.DualFeasible program.problem ∧
      ∀ y, program.problem.Feasible y →
        program.problem.objective answer.point ≤ program.problem.objective y ∧
          (program.problem.objective y = program.problem.objective answer.point →
            y = answer.point) := by
  rcases unconstrained_or_concludes h with ⟨L, hfactor, hnone, rfl⟩ | ⟨slots, history, last,
    hconcludes⟩
  · refine ⟨dualFeasible_unconstrained hsymmetric hfactor hnone, ?_⟩
    intro y _
    refine objective_le_of_gradient hsymmetric
      (Cholesky.mul_basis hsymmetric (Cholesky.factor_eq_ok.mp hfactor)) ?_
    show 0 ≤ _ ⬝ᵥ (program.problem.gradient (program.problem.unconstrainedPoint L)).get
    rw [gradient_unconstrainedPoint hsymmetric hfactor, dotProduct_zero]
  · refine ⟨hconcludes.dualFeasible hsymmetric hseparated, ?_⟩
    intro y hy
    exact objective_le_of_gradient hsymmetric
      (columns_of_course hsymmetric hconcludes.course).factored.inverse
      (hconcludes.pull_nonneg hsymmetric hseparated hy)

/-- A solve in one variable is separated if no normal is short but not zero: no fold has anything
to clear, and the point moves only while nothing is active, straight towards the constraint. -/
theorem separated_of_one {P : Problem ℝ 1 e m}
    (hequalities : ∀ i, (P.equalities.get i).normal.get 0 = 0 ∨
      Scalar.epsilon < ((P.equalities.get i).normal.get 0 / P.quadratic.entry 0 0) ^ 2)
    (hinequalities : ∀ i, (P.inequalities.get i).normal.get 0 = 0 ∨
      Scalar.epsilon < ((P.inequalities.get i).normal.get 0 / P.quadratic.entry 0 0) ^ 2)
    (limit : Int) (buffers : Option (Buffers ℝ)) :
    (⟨P⟩ : Program ℝ).Separated limit buffers := by
  have hsymmetric : P.quadratic.IsSymmetric := fun i j => by rw [Subsingleton.elim i j]
  intro slots history s hcourse
  constructor
  · intro a _ pair hpair
    rw [Machine.foldPairs_of_one] at hpair
    exact absurd hpair List.not_mem_nil
  · cases hinHand : s.inHand P with
    | none => exact .inl (by simp only [Machine.directionSquare, hinHand])
    | some c =>
      have hlong : c.normal.get 0 = 0 ∨
          Scalar.epsilon < (c.normal.get 0 / P.quadratic.entry 0 0) ^ 2 := by
        unfold Machine.inHand at hinHand
        split at hinHand
        · split at hinHand
          · cases hinHand
            exact hequalities _
          · cases hinHand
        · cases hinHand
          exact hinequalities _
        · cases hinHand
      have hfactored : Factored P.quadratic s.iterate.workspace.factors _ _ :=
        (columns_of_course hsymmetric hcourse).factored
      rw [Machine.directionSquare_of_inHand hinHand, Vec.dot_eq]
      rcases Nat.eq_zero_or_pos s.iterate.workspace.count with hfree | hfull
      · have hprimal := hfactored.get_primal_of_one hfree c.normal
        show (∑ i : Fin 1, _) = (0 : ℝ) ∨ _ < (∑ i : Fin 1, _)
        rw [Fin.sum_univ_one, hprimal, ← sq]
        exact hlong.imp_left fun hzero => by rw [hzero, zero_div, sq, zero_mul]
      · left
        rw [Workspace.primal_of_full hfull, zero_dotProduct]

/-- Each candidate of a solve in the corner moves the point by more than the threshold. -/
theorem square_corner {p : ℝ} (hp : 1 ≤ p) : HoldsInCorner p fun s =>
    s.directionSquare (Problem.corner p) = 0 ∨
      Scalar.epsilon < s.directionSquare (Problem.corner p) where
  idle s h := by
    left
    simp only [Machine.directionSquare, h]
  start it _ _ _ _ h := by
    rw [Machine.directionSquare_of_inHand rfl]
    refine .inr (lt_of_lt_of_eq ?_ (h.square (Problem.get_normal_corner p).1).symm)
    linarith [epsilon_lt_square hp, Scalar.epsilon_pos]
  wall it _ _ _ _ h := by
    rw [Machine.directionSquare_of_inHand rfl]
    exact .inr (lt_of_lt_of_eq (epsilon_lt_square hp)
      (h.square (Problem.get_normal_corner p).2).symm)
  past it _ _ _ _ h := by
    rw [Machine.directionSquare_of_inHand rfl]
    refine .inr (lt_of_lt_of_eq ?_ (h.square (Problem.get_normal_corner p).2).symm)
    linarith [epsilon_lt_square hp, Scalar.epsilon_pos]

/-- The solve in a corner of moderate scale is separated. -/
theorem separated_corner {p : ℝ} (hp : 1 ≤ p) (hfar : Scalar.epsilon ≤ 3 / (p * p)) {limit : Int}
    (hlimit : 2 ≤ limit) : (corner p).Separated limit none := by
  intro slots history s hcourse
  obtain rfl : slots = 2 := hcourse.slots_eq
  refine ⟨fun a ha => ?_, forall_corner hp hfar hlimit (square_corner hp) hcourse⟩
  obtain ⟨earlier, hbefore⟩ := hcourse.exists_before ha
  exact forall_corner hp hfar hlimit (Problem.skipsOnlyZeros_corner hp) hbefore

/-- In the corner the answer lies on the second wall, and no
point of the corner is nearer to zero. -/
theorem weak_duality_of_solve_corner :
    (corner 1).problem.quadratic.IsSymmetric ∧ (corner 1).Separated 100 none ∧
      ∃ answer : Solution ℝ 2 0 2, ((corner 1).solve none 100 none).outcome = .ok answer ∧
        answer.point.get = ![5 / 2, 5 / 2] ∧ .inequality 1 ∈ answer.activeSet ∧
        (Problem.corner 1).Feasible #v[1, 4] ∧ answer.DualFeasible (Problem.corner 1) ∧
        ∀ y, (Problem.corner 1).Feasible y →
          (Problem.corner 1).objective answer.point ≤ (Problem.corner 1).objective y ∧
            ((Problem.corner 1).objective y = (Problem.corner 1).objective answer.point →
              y = answer.point) := by
  have hsymmetric : (corner 1).problem.quadratic.IsSymmetric := Problem.isSymmetric_nearest _ _
  have hseparated : (corner 1).Separated 100 none :=
    separated_corner (le_refl 1) Scalar.far_unit (by decide)
  obtain ⟨answer, history, last, hanswer, -, hconcludes, hcount, hlabel, hpoint⟩ :=
    solve_corner (le_refl 1) Scalar.far_unit (show (2 : Int) ≤ 100 by decide)
  have hactive : .inequality 1 ∈ answer.activeSet :=
    hconcludes.mem_activeSet.mpr ⟨0, le_refl 0, hcount.symm ▸ Nat.one_pos, hlabel⟩
  have hvertex : (Problem.corner 1).Feasible #v[1, 4] := by
    obtain ⟨hfirst, hsecond⟩ := Problem.slack_corner 1 #v[1, 4]
    refine ⟨fun i => i.elim0, Fin.forall_fin_two.mpr ⟨?_, ?_⟩⟩
    · rw [hfirst]
      show 0 ≤ 8 * (1 : ℝ) - 8
      norm_num
    · rw [hsecond]
      show 0 ≤ (1 : ℝ) + 4 - 5
      norm_num
  exact ⟨hsymmetric, hseparated, answer, hanswer, hpoint, hactive, hvertex,
    weak_duality_of_solve hsymmetric hseparated hanswer⟩

end Program

end ActiveSet

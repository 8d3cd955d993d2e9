import ActiveSet.Proofs.Duality
import ActiveSet.Proofs.Heads
/-
  Every step goes forward

  As long as a candidate is being added it is violated, so no step towards it
  is backwards, and no dual value of an inequality turns negative on the way
  (`Iterate.Advances`). The value that a solve tracks does not fall by such a
  step, since it grows with the step, with the curvature, which is a sum of
  squares, and with the candidate's dual value.

  What an iteration may undo is the value that it set out with: `securedValue`
  is the tracked value between two candidates and that of the saved copy while
  one is being added. It never falls from one state to the next, so neither
  does the value from one head of an iteration to a later one, and it starts
  from the unconstrained minimum. None of this needs the run to be separated.
-/

open Matrix

namespace ActiveSet

variable {n e m slots : Nat}

/-- A step forward towards a constraint with a dual value that is not negative raises the value. -/
theorem le_raised {value step curvature dual : ℝ} (hstep : 0 ≤ step) (hcurvature : 0 ≤ curvature)
    (hdual : 0 ≤ dual) :
    value ≤ value + step * curvature * (Scalar.half * step + dual) := by
  rw [Scalar.half_real]
  have hgain : 0 ≤ step * curvature * (1 / 2 * step + dual) := by positivity
  linarith

namespace Machine

variable {P : Problem ℝ n e m} {limit : Nat} {tolerance : ℝ} {candidate : Fin m}
  {it it' : Iterate ℝ n slots m} {history : List (Admission ℝ n slots m)}

/-! ## One pass -/

theorem value_le_of_dropped (hadds : it.Adds P tolerance candidate)
    (h : it.DualFeasible e candidate) (hdropped : it.Dropped P candidate it') :
    it.value ≤ it'.value := by
  obtain ⟨c, direction, step, p, hdrop⟩ := hdropped.dropsAt hadds
  have hstep : 0 ≤ step := Workspace.step_nonneg_of_blocking hdrop.blocking h.nonneg
  rcases hdrop.moves with ⟨-, -, hvalue, -⟩ | ⟨-, -, -, hvalue, -⟩
  · exact hvalue.ge
  · rw [hvalue]
    exact le_raised hstep (Factored.curvature_nonneg _ c)
      (h.nonneg _ hadds.seating.met_le (le_refl _))

theorem value_le_of_reached (hadds : it.Adds P tolerance candidate)
    (hcolumns : Columns P history it.snapshot) (h : it.DualFeasible e candidate) {accepted : Bool}
    (hreached : it.Reached P candidate accepted it') : it.value ≤ it'.value := by
  cases hreached with
  | @intro c ws ws₁ direction step events hc hws hdirection hplan hfold =>
    subst hws
    obtain ⟨hstep, -⟩ := forward_of_plan hcolumns h (congrArg Move.length? hplan)
    exact le_raised hstep (Factored.curvature_nonneg _ c)
      (h.nonneg _ hadds.seating.met_le (le_refl _))

end Machine

/-- A pass from a violated candidate: it does not fail, does not go backwards, keeps the dual values
from turning negative, and does not lower the value. -/
structure Iterate.Advances (P : Problem ℝ n e m) (candidate : Fin m) (it : Iterate ℝ n slots m) :
    Prop where
  violated : it.slack.get candidate < 0
  measured : it.slack.get candidate = (P.inequalities.get candidate).slack it.point
  before : ∀ k, e ≤ k → k ≤ it.workspace.count → 0 ≤ it.workspace.dual k
  after : ∀ (c : Constraint ℝ n) (direction : Vector ℝ (it.workspace.aim c.normal).count)
    (step : ℝ), c = P.inequalities.get candidate →
      (it.workspace.aim c.normal).dualDirection = .ok direction →
        ((it.workspace.aim c.normal).plan direction e (it.slack.get candidate)
          ((it.workspace.aim c.normal).curvature c)).length? = some step →
            0 ≤ step ∧ ∀ k, e ≤ k → k ≤ it.workspace.count →
              0 ≤ ((it.workspace.aim c.normal).shift step direction).dual k
  value : ∃ it', (it.pass P candidate = .again it' ∨
      ∃ outcome, it.pass P candidate = .settled outcome it') ∧ it.value ≤ it'.value

namespace Machine

variable {P : Problem ℝ n e m} {limit : Nat} {tolerance : ℝ} {candidate : Fin m}
  {it it' : Iterate ℝ n slots m} {history : List (Admission ℝ n slots m)}

/-- A pass does not fail: the triangle has no zero on its diagonal. -/
theorem pass_ne_failed (hadds : it.Adds P tolerance candidate)
    (hcolumns : Columns P history it.snapshot) {fault : Fault} :
    it.pass P candidate ≠ .failed fault it' := by
  intro hpass
  have hfailed := hadds.dualDirection_of_failed hpass
  obtain ⟨direction, hdirection⟩ := hcolumns.factored.exists_dualDirection
    (P.inequalities.get candidate).normal
  cases hdirection.symm.trans hfailed

theorem advances_of_adds (hadds : it.Adds P tolerance candidate)
    (hcolumns : Columns P history it.snapshot) (h : it.DualFeasible e candidate) :
    it.Advances P candidate := by
  refine ⟨h.violated, hadds.measured, h.nonneg, ?_, ?_⟩
  · intro c direction step _ _ hlength
    obtain ⟨hstep, hadmits⟩ := forward_of_plan hcolumns h hlength
    exact ⟨hstep, fun k hek hk =>
      Workspace.dual_shift_nonneg hadmits hstep hadds.count_le h.nonneg hek hk⟩
  · rcases Iterate.pass_cases P candidate it with
      ⟨fault, it', hp⟩ | ⟨it', hp, hstuck⟩ | ⟨it', hp, hdropped⟩ | ⟨it', hp, hreached⟩ |
        ⟨it', hp, hreached⟩
    · exact absurd hp (pass_ne_failed hadds hcolumns)
    · refine ⟨it', .inr ⟨_, hp⟩, ?_⟩
      cases hstuck
      exact le_refl _
    · exact ⟨it', .inl hp, value_le_of_dropped hadds h hdropped⟩
    · exact ⟨it', .inr ⟨_, hp⟩, value_le_of_reached hadds hcolumns h hreached⟩
    · exact ⟨it', .inr ⟨_, hp⟩, value_le_of_reached hadds hcolumns h hreached⟩

/-! ## Along the course of a solve -/

/-- The value that a run does not fall below any more. -/
def securedValue (s : Machine ℝ n slots m) : ℝ :=
  match s.phase with
  | .pass .. => s.iterate.workspace.saved.value
  | _ => s.iterate.value

section Course

variable {start s s' t : Machine ℝ n slots m} {later : List (Admission ℝ n slots m)}
  (hphase : start.phase = .equality 0) (hstanding : Standing P tolerance start)
  (hcolumns : Columns P [] start.iterate.snapshot)
include hphase hstanding hcolumns

/-- Beside the signs, that the value is not below that of the saved copy. -/
theorem upkeep_ascent : Upkeep P limit tolerance start (fun _ t => t.DualFeasible e)
    fun _ candidate it => it.DualFeasible e candidate ∧ it.workspace.saved.value ≤ it.value := by
  have hsigns : Upkeep P limit tolerance start (fun _ t => t.DualFeasible e)
      fun _ candidate it => it.DualFeasible e candidate :=
    upkeep_dualFeasible hphase hstanding hcolumns
  refine ⟨hsigns.origin, hsigns.met, ?_, ?_, ?_⟩
  · intro history s excluded candidate ws events hcourse hrests h hcandidate hplace
    refine ⟨hsigns.chosen hcourse hrests h hcandidate hplace, ?_⟩
    obtain ⟨_, rfl⟩ := Workspace.place_ok hplace
    show s.iterate.workspace.saved.value ≤ s.iterate.value
    rw [← hrests.saved]
    exact le_refl _
  · intro history s it' candidate hcourse hinHand hadds h hdropped
    refine ⟨hsigns.dropped hcourse hinHand hadds h.1 hdropped, ?_⟩
    rw [saved_of_dropped hdropped]
    exact h.2.trans (value_le_of_dropped hadds h.1 hdropped)
  · intro history s s' it' candidate isActive hcourse hinHand hadds h hreached hit
    exact hsigns.added hcourse hinHand hadds h.1 hreached hit

/-- What a run has secured is not above the tracked value. -/
theorem securedValue_le_value (hcourse : Course P limit tolerance start history s) :
    s.securedValue ≤ s.iterate.value := by
  have hholds := (upkeep_ascent hphase hstanding hcolumns).holds hphase hstanding hcourse
  obtain ⟨it, phase, iterations, evaluations⟩ := s
  cases phase with
  | pass candidate excluded fresh => exact hholds.1.2
  | equality | head | select => exact le_refl _

/-- What a run has secured it keeps. -/
theorem securedValue_le_of_leads (hcourse : Course P limit tolerance start history s)
    (h : Leads P limit tolerance s s') : s.securedValue ≤ s'.securedValue := by
  have hs : Standing P tolerance s := standing_of_course hstanding hcourse
  have hnow := columns_of_course hphase hstanding hcolumns hcourse
  have hholds := (upkeep_ascent hphase hstanding hcolumns).holds hphase hstanding hcourse
  cases h with
  | @met it it' i iterations evaluations hmet =>
    cases hmet with
    | @intro c ws ws₁ ws₂ direction step hc hws hdirection hstep hplace hfold =>
      subst hws
      show it.value ≤ it.value + Scalar.half * step * step *
        (it.workspace.aim c.normal).curvature c
      have hgain : 0 ≤ Scalar.half * step * step * (it.workspace.aim c.normal).curvature c := by
        rw [Scalar.half_real, mul_assoc (1 / 2 : ℝ)]
        exact mul_nonneg (mul_nonneg (by norm_num) (mul_self_nonneg step))
          (Factored.curvature_nonneg _ c)
      linarith
  | allMet => exact le_refl _
  | begun hit =>
    subst hit
    exact le_refl _
  | @chosen it ws excluded candidate events iterations evaluations hcandidate hplace fresh =>
    -- the saved copy was made when the iteration began, and nothing has moved since
    obtain ⟨_, rfl⟩ := Workspace.place_ok hplace
    show it.value ≤ it.workspace.saved.value
    rw [← Iterate.Rests.saved hs]
    exact le_refl _
  | dropped hdropped => exact (congrArg Snapshot.value (saved_of_dropped hdropped)).ge
  | @added it it' excluded candidate fresh iterations evaluations hreached =>
    have hrise : it.value ≤ it'.value := value_le_of_reached hs hnow hholds.1.1 hreached
    exact hholds.1.2.trans hrise
  | undone hreached =>
    obtain ⟨-, hsaved, -, -⟩ := hreached.keeps
    exact (congrArg Snapshot.value hsaved).ge

theorem securedValue_le_of_course (hcourse : Course P limit tolerance start history s)
    (hlater : Course P limit tolerance s later t) : s.securedValue ≤ t.securedValue := by
  induction hlater with
  | start => exact le_refl _
  | next hu hstep ih =>
    exact ih.trans (securedValue_le_of_leads hphase hstanding hcolumns (hcourse.trans hu)
      (leads_of_step hstep))

end Course

theorem securedValue_of_head {s : Machine ℝ n slots m} (h : s.phase = .head) :
    s.securedValue = s.iterate.value := by
  rw [securedValue, h]

end Machine

namespace Program

variable {program : Program ℝ} {limit : Int} {buffers : Option (Buffers ℝ)}
  {answer : Solution ℝ program.dimension program.equalityCount program.inequalityCount}
  {history : List (Admission ℝ program.dimension slots program.inequalityCount)}
  {s t last : Machine ℝ program.dimension slots program.inequalityCount}

theorem advances_of_course (hsymmetric : program.problem.quadratic.IsSymmetric)
    (h : program.Course limit buffers history s) {candidate : Fin program.inequalityCount}
    {excluded : Vector Bool program.inequalityCount} {fresh : excluded.get candidate = false}
    (hphase : s.phase = .pass candidate excluded fresh) :
    s.iterate.Advances program.problem candidate := by
  have hstanding := standing_of_course h
  have hnow := columns_of_course hsymmetric h
  obtain ⟨L, workspace, hfactor, -, hcourse⟩ := h
  have hholds := (Machine.upkeep_dualFeasible rfl (Machine.standing_start _ _ _ _ _)
    (columns_origin hsymmetric hfactor workspace)).holds rfl
      (Machine.standing_start _ _ _ _ _) hcourse
  rw [Machine.Standing, hphase] at hstanding
  rw [Machine.Holds, hphase] at hholds
  exact Machine.advances_of_adds hstanding hnow hholds.1

/-- The value does not fall from one head of an iteration to a later one. -/
theorem value_le_of_follows (hsymmetric : program.problem.quadratic.IsSymmetric)
    (h : program.Course limit buffers history s) (hs : s.phase = .head)
    (hlater : program.Follows limit s t) (ht : t.phase = .head) :
    s.iterate.value ≤ t.iterate.value := by
  obtain ⟨L, workspace, hfactor, -, hcourse⟩ := h
  obtain ⟨later, hlater⟩ := hlater
  rw [← Machine.securedValue_of_head hs, ← Machine.securedValue_of_head ht]
  exact Machine.securedValue_le_of_course rfl (Machine.standing_start _ _ _ _ _)
    (columns_origin hsymmetric hfactor workspace) hcourse hlater

/-- The value is never below the unconstrained minimum. -/
theorem exists_minimum_le_value (hsymmetric : program.problem.quadratic.IsSymmetric)
    (h : program.Course limit buffers history s) :
    ∃ x, (∀ y, program.problem.objective x ≤ program.problem.objective y) ∧
      program.problem.objective x ≤ s.iterate.value := by
  obtain ⟨L, workspace, hfactor, -, hcourse⟩ := h
  have hstanding := Machine.standing_start program.problem program.tolerance
    (Triangular.inverseLower L) (program.problem.unconstrainedPoint L) workspace
  have hcolumns := columns_origin hsymmetric hfactor workspace
  refine ⟨program.problem.unconstrainedPoint L,
    objective_unconstrainedPoint_le hsymmetric hfactor, ?_⟩
  have hstart : (program.origin L workspace).securedValue =
      program.problem.objective (program.problem.unconstrainedPoint L) :=
    unconstrainedValue_eq (gradient_unconstrainedPoint hsymmetric hfactor)
  rw [← hstart]
  exact (Machine.securedValue_le_of_course rfl hstanding hcolumns .start hcourse).trans
    (Machine.securedValue_le_value rfl hstanding hcolumns hcourse)

/-- Dual feasibility and ascent, with no assumption on magnitudes. At every pass of a solve the
candidate is violated, the step is forward, the dual values of the inequalities are not negative
before and after it, and the value does not fall. So no answer has a negative multiplier of an
inequality, and the value does not fall from one head of an iteration to a later one, nor below the
unconstrained minimum. -/
theorem ascent_of_solve (hsymmetric : program.problem.quadratic.IsSymmetric) (limit : Int)
    (buffers : Option (Buffers ℝ)) :
    (∀ (slots : Nat)
      (history : List (Admission ℝ program.dimension slots program.inequalityCount))
      (s : Machine ℝ program.dimension slots program.inequalityCount),
      program.Course limit buffers history s →
        (∀ candidate excluded fresh, s.phase = .pass candidate excluded fresh →
          s.iterate.Advances program.problem candidate) ∧
        (∀ t, s.phase = .head → program.Follows limit s t → t.phase = .head →
          s.iterate.value ≤ t.iterate.value) ∧
        ∃ x, (∀ y, program.problem.objective x ≤ program.problem.objective y) ∧
          program.problem.objective x ≤ s.iterate.value) ∧
    ∀ (guess : Option (Guess ℝ))
      (answer : Solution ℝ program.dimension program.equalityCount program.inequalityCount),
      (program.solve guess limit buffers).outcome = .ok answer →
        (∀ i, 0 ≤ answer.inequalityMultipliers.get i) ∧
          ∃ x, (∀ y, program.problem.objective x ≤ program.problem.objective y) ∧
            program.problem.objective x ≤ answer.value := by
  constructor
  · intro slots history s hcourse
    exact ⟨fun candidate excluded fresh hphase => advances_of_course hsymmetric hcourse hphase,
      fun t hs hlater ht => value_le_of_follows hsymmetric hcourse hs hlater ht,
      exists_minimum_le_value hsymmetric hcourse⟩
  · intro guess answer hanswer
    rcases unconstrained_or_concludes hanswer with ⟨L, hfactor, -, rfl⟩ | ⟨slots, history, last,
      hconcludes⟩
    · refine ⟨fun i => ?_, program.problem.unconstrainedPoint L,
        objective_unconstrainedPoint_le hsymmetric hfactor, ?_⟩
      · simp [Solution.unconstrained]
      · exact (unconstrainedValue_eq (gradient_unconstrainedPoint hsymmetric hfactor)).ge
    · refine ⟨hconcludes.multipliers_nonneg hsymmetric, ?_⟩
      rw [hconcludes.value_eq]
      exact exists_minimum_le_value hsymmetric hconcludes.course

end Program

/-! ## Two bounds that exclude each other

From zero, which is within the bound `x ≤ b`, a solve goes to the bound `x ≥ 1`. There it cannot
move in the only variable there is, and it cannot let go of the first bound either, since the second
one pulls it harder onto it: the second candidate admits no step, and the solve ends in its second
iteration. -/

/-- The nearest point to zero with `x ≥ 1` and `x ≤ b`. -/
noncomputable def Problem.crossing (b : ℝ) : Problem ℝ 1 0 2 :=
  nearest 1 (Vector.ofFn Fin.elim0)
    (Vector.ofFn ![⟨Vector.ofFn fun _ => 1, 1⟩, ⟨Vector.ofFn fun _ => -1, -b⟩])

/-- The problem as a program. -/
noncomputable def Program.crossing (b : ℝ) : Program ℝ := ⟨Problem.crossing b⟩

/-- The first head of a solve. -/
noncomputable def Problem.crossingHead (b : ℝ) : Machine ℝ 1 2 2 :=
  ⟨(origin 1 (crossing b).equalities (crossing b).inequalities).iterate, .head, 0, 1⟩

section Crossing

variable {b : ℝ}

namespace Problem

theorem get_crossing (b : ℝ) :
    (crossing b).inequalities.get 0 = ⟨Vector.ofFn fun _ => 1, 1⟩ ∧
      (crossing b).inequalities.get 1 = ⟨Vector.ofFn fun _ => -1, -b⟩ :=
  ⟨Vec.get_ofFn _ _, Vec.get_ofFn _ _⟩

theorem get_normal_crossing (b : ℝ) :
    ((crossing b).inequalities.get 0).normal.get = (fun _ => 1) ∧
      ((crossing b).inequalities.get 1).normal.get = fun _ => -1 := by
  obtain ⟨hfirst, hsecond⟩ := get_crossing b
  rw [hfirst, hsecond]
  exact ⟨funext fun _ => Vec.get_ofFn _ _, funext fun _ => Vec.get_ofFn _ _⟩

theorem isSymmetric_crossing (b : ℝ) : (crossing b).quadratic.IsSymmetric :=
  isSymmetric_nearest _ _

theorem entry_crossing (b : ℝ) : (crossing b).quadratic.entry 0 0 = 1 := by
  have hentry : (crossing b).quadratic.entry 0 0 = 1 / 1 * (1 / 1) :=
    congrFun (congrFun (Mat.toMatrix_diagonal fun _ : Fin 1 => (1 / 1 * (1 / 1) : ℝ)) 0) 0
  rw [hentry]
  norm_num

theorem slack_crossing (b : ℝ) (x : Vector ℝ 1) :
    ((crossing b).slacks x).get 0 = x.get 0 - 1 ∧ ((crossing b).slacks x).get 1 = b - x.get 0 := by
  obtain ⟨hfirst, hsecond⟩ := get_normal_crossing b
  rw [Iterate.get_slacks, Iterate.get_slacks, Constraint.slack, Constraint.slack, Vec.dot_eq,
    Vec.dot_eq, dotProduct, dotProduct, Fin.sum_univ_one, Fin.sum_univ_one, hfirst, hsecond,
    (get_crossing b).1, (get_crossing b).2]
  constructor
  · ring
  · ring

end Problem

/-- A point is never near enough for the solve to stop: what it has of one bound it lacks of the
other. -/
theorem Program.violated_crossing (hgap : 200 * Scalar.epsilon < 1 - b) (x : Vector ℝ 1) :
    Scalar.le (Scalar.abs ((Problem.crossing b).infeasibilityAt x)) (crossing b).tolerance =
      false := by
  have htolerance : (crossing b).tolerance = 200 * Scalar.epsilon := by
    refine (tolerance_nearest _ _ one_pos).trans ?_
    norm_num
  obtain ⟨hfirst, hsecond⟩ := Problem.slack_crossing b x
  have hsum : (Problem.crossing b).infeasibilityAt x =
      min (x.get 0 - 1) 0 + min (b - x.get 0) 0 := by
    rw [Problem.infeasibilityAt, Vec.sum_eq, Fin.sum_univ_two, Vector.get_map, Vector.get_map,
      hfirst, hsecond, Scalar.minimum_real, Scalar.minimum_real]
  have hfar : (Problem.crossing b).infeasibilityAt x ≤ b - 1 := by
    rw [hsum]
    linarith [min_le_left (x.get 0 - 1) 0, min_le_left (b - x.get 0) 0]
  have hepsilon : 0 < (Scalar.epsilon : ℝ) := Scalar.epsilon_pos
  rw [Scalar.le_real, Scalar.abs_real, abs_of_nonpos (by linarith), htolerance]
  exact decide_eq_false (by linarith)

/-- The bounds `x ≥ 1` and `x ≤ 0` are far enough apart for that. -/
theorem Program.apart_crossing : 200 * Scalar.epsilon < 1 - (0 : ℝ) := by
  rw [Scalar.epsilon_real]
  norm_num

/-- Both normals are long. -/
theorem Program.separated_crossing (b : ℝ) (limit : Int) :
    (crossing b).Separated limit none := by
  have hlong (v : ℝ) (hv : v ^ 2 = 1) :
      Scalar.epsilon < (v / (Problem.crossing b).quadratic.entry 0 0) ^ 2 := by
    rw [Problem.entry_crossing, div_one, hv]
    exact Scalar.epsilon_lt_one
  obtain ⟨hfirst, hsecond⟩ := Problem.get_normal_crossing b
  refine separated_of_one (fun i => i.elim0) (Fin.forall_fin_two.mpr ⟨.inr ?_, .inr ?_⟩) limit none
  · rw [hfirst]
    exact hlong 1 (by norm_num)
  · rw [hsecond]
    exact hlong (-1) (by norm_num)

section Course

variable {limit : Int}

theorem Program.course_crossingHead (b : ℝ) (limit : Int) :
    (crossing b).Course limit none [] (Problem.crossingHead b) :=
  course_nearest _ _ one_pos (Machine.Course.start.next (Machine.step_of_allMet (le_refl 0)))

section First

variable {it : Iterate ℝ 1 2 2} {c : Constraint ℝ 1} (hcount : it.workspace.count = 0)
  (hbasis : it.workspace.basis.toMatrix = Matrix.diagonal fun _ => 1)
  (hnormal : c.normal.get = fun _ => 1)
include hbasis hnormal

theorem Workspace.get_image_of_unit : (it.workspace.aim c.normal).image.get = fun _ => 1 := by
  rw [get_image_aim, hbasis, hnormal]
  simp

include hcount

theorem Workspace.get_primal_of_unit : (it.workspace.aim c.normal).primal.get = fun _ => 1 := by
  rw [get_primal_aim, ← get_image_aim, get_image_of_unit hbasis hnormal, hbasis]
  funext i
  rw [Matrix.mulVec_diagonal, tailFrom_of_le (hcount.trans_le (Nat.zero_le _)), one_mul]

/-- Nothing blocks the way to a bound at the distance one. -/
theorem Workspace.plan_of_unit (direction : Vector ℝ (it.workspace.aim c.normal).count) :
    (it.workspace.aim c.normal).plan direction 0 (-1)
      ((it.workspace.aim c.normal).curvature c) = .full 1 := by
  have hprimal := get_primal_of_unit hcount hbasis hnormal
  have hcurvature : (it.workspace.aim c.normal).curvature c = 1 := by
    rw [curvature, Vec.dot_eq, hprimal, hnormal]
    simp [dotProduct]
  have hmove : (it.workspace.aim c.normal).canMove = true := by
    have hsquare : Vec.dot (it.workspace.aim c.normal).primal
        (it.workspace.aim c.normal).primal = 1 := by
      rw [Vec.dot_eq, hprimal]
      simp [dotProduct]
    rw [canMove_iff, hsquare]
    exact Scalar.epsilon_lt_one
  have hempty : (it.workspace.aim c.normal).count = 0 := hcount
  rw [plan_of_free hmove (blocking_of_empty hempty direction 0), hcurvature]
  norm_num

end First

/-- The first bound is reached and folded in. -/
theorem Problem.exists_reached_crossing (b : ℝ) (it : Iterate ℝ 1 2 2)
    (hcount : it.workspace.count = 0) (hscale : it.workspace.pivotScale = 1)
    (hbasis : it.workspace.basis.toMatrix = Matrix.diagonal fun _ => 1)
    (hpoint : it.point.get = 0) (hslack : it.slack.get 0 = -1) :
    ∃ it', it.Reached (crossing b) 0 true it' ∧ it'.point.get 0 = 1 ∧
      it'.isActive = it.isActive := by
  have hnormal := (get_normal_crossing b).1
  generalize hc : (crossing b).inequalities.get 0 = c at hnormal
  have hfree : (it.workspace.aim c.normal).count = 0 := hcount
  obtain ⟨direction, hdirection⟩ := Workspace.exists_dualDirection_of_empty hfree
  have hplan := Workspace.plan_of_unit hcount hbasis hnormal direction
  rw [← hslack] at hplan
  have hpivot : Scalar.le (Scalar.abs (Vec.extend (it.workspace.aim c.normal).image
      (it.workspace.aim c.normal).count))
      (Scalar.epsilon * (it.workspace.aim c.normal).pivotScale) = false := by
    rw [hfree, Vec.extend_of_lt _ Nat.one_pos, Workspace.get_image_of_unit hbasis hnormal,
      show (it.workspace.aim c.normal).pivotScale = 1 from hscale, mul_one, Scalar.abs_real,
      abs_one, Scalar.le_real]
    exact decide_eq_false (not_le.mpr Scalar.epsilon_lt_one)
  have hfold : ((it.workspace.aim c.normal).shift 1 direction).fold = (_, true) :=
    Workspace.fold_of_last (show (it.workspace.aim c.normal).count + 1 = 1 by omega) hpivot
  obtain ⟨it', hreached, -, hmoved, hactive⟩ :=
    Iterate.exists_reached hc.symm rfl hdirection hplan hfold
  refine ⟨it', hreached, ?_, hactive⟩
  rw [hmoved, Vec.get_add, Vec.get_scale, hpoint,
    Workspace.get_primal_of_unit hcount hbasis hnormal]
  norm_num

/-- From the first head a solve goes to one at which the first bound is active. -/
theorem Program.exists_secondHead (hb : 0 ≤ b) (hgap : 200 * Scalar.epsilon < 1 - b)
    (hlimit : 1 ≤ limit) :
    ∃ it : Iterate ℝ 1 2 2, (crossing b).Follows limit (Problem.crossingHead b) ⟨it, .head, 1, 2⟩ ∧
      it.point.get 0 = 1 ∧ it.isActive.get 0 = true ∧ it.isActive.get 1 = false := by
  let it₀ := (Problem.crossingHead b).iterate
  have hpoint : it₀.point.get = 0 := Problem.point_origin _ _ one_pos
  have hbasis : it₀.workspace.basis.toMatrix = Matrix.diagonal fun _ => 1 :=
    Problem.basis_origin _ _ one_pos
  have hinactive : ∀ i, it₀.isActive.get i = false := fun i => by
    show (Vector.replicate 2 false).get i = false
    simp [Vec.get_eq_getElem]
  obtain ⟨hslack₀, hslack₁⟩ := Problem.slack_crossing b it₀.point
  rw [hpoint, Pi.zero_apply] at hslack₀ hslack₁
  have hchosen : (it₀.evaluate (Problem.crossing b)).mostViolated (Vector.replicate 2 false) =
      some 0 := by
    apply Iterate.mostViolated_eq_some
    · refine (Iterate.isCandidate_replicate _ _).mpr ⟨hinactive 0, ?_⟩
      show ((Problem.crossing b).slacks it₀.point).get 0 < 0
      rw [hslack₀]
      norm_num
    · intro k _ hk
      obtain rfl : k = 1 := by omega
      show ((Problem.crossing b).slacks it₀.point).get 0 <
        ((Problem.crossing b).slacks it₀.point).get 1
      rw [hslack₀, hslack₁]
      linarith
  have hstart : Machine.Course (Problem.crossing b) limit.toNat (crossing b).tolerance
      (Problem.crossingHead b) [] ⟨it₀, .head, 0, 1⟩ := .start
  obtain ⟨ws, events, fresh, hplace, hpass⟩ :=
    hstart.to_pass (violated_crossing hgap it₀.point) (show 0 < limit.toNat by omega)
      (Nat.zero_le _) hchosen
  obtain ⟨hroom, hws⟩ := Workspace.place_ok hplace
  obtain ⟨it', hreached, hpoint', hactive⟩ := Problem.exists_reached_crossing b
    { it₀.evaluate (Problem.crossing b) with workspace := ws, events }
    (by rw [hws]; rfl) (by rw [hws]; rfl)
    (by rw [hws]; exact hbasis) hpoint (hslack₀.trans (by norm_num))
  obtain ⟨later, events', hcourse⟩ := hpass.to_head hreached
  refine ⟨_, ⟨later, hcourse⟩, hpoint', ?_, ?_⟩
  · show (Vec.set it'.isActive 0 true).get 0 = true
    rw [Vec.get_set, if_pos rfl]
  · show (Vec.set it'.isActive 0 true).get 1 = false
    rw [Vec.get_set, if_neg (by decide), hactive]
    exact hinactive 1

/-- With the first bound active the second one admits no step. -/
theorem Program.noStep_crossing {history : List (Admission ℝ 1 2 2)} {it : Iterate ℝ 1 2 2}
    {excluded : Vector Bool 2} {fresh : excluded.get 1 = false} {iterations evaluations : Nat}
    (hcourse : (crossing b).Course limit none history
      ⟨it, .pass (1 : Fin 2) excluded fresh, iterations, evaluations⟩)
    (hactive : it.isActive.get 0 = true) :
    ∃ it', it.pass (Problem.crossing b) 1 = .settled .noStep it' := by
  have hcolumns : Columns (Problem.crossing b) history it.snapshot :=
    columns_of_course (Problem.isSymmetric_crossing b) hcourse
  have hclean := (separated_crossing b limit _ _ _ hcourse).1
  have hseated : it.Adds (Problem.crossing b) (crossing b).tolerance 1 :=
    standing_of_course hcourse
  -- the only slot holds the first bound
  obtain ⟨hcount, hlabel⟩ : it.workspace.count = 1 ∧ it.workspace.label 0 = .inequality 0 := by
    obtain ⟨k, -, hk, hname⟩ := hseated.seating.complete 0 hactive
    have hfull : it.workspace.count ≤ 1 := hcolumns.factored.count_le
    obtain rfl : k = 0 := by omega
    exact ⟨by omega, hname⟩
  generalize hc : (Problem.crossing b).inequalities.get 1 = c
  obtain ⟨direction, hdirection⟩ := hcolumns.factored.exists_dualDirection c.normal
  have hprimal : (it.workspace.aim c.normal).primal.get = 0 :=
    Workspace.primal_of_full hcount.ge c.normal
  have hfalls : Vec.extend direction 0 = -1 := by
    have hsplit := congrFun (hcolumns.normal_split hclean hdirection) 0
    rw [hprimal, Matrix.mulVec_zero, zero_add, Problem.weighted, hcount, Finset.sum_range_one,
      hlabel, ← hc, (Problem.get_normal_crossing b).2] at hsplit
    have hfirst : (Problem.crossing b).normal (.inequality 0) = fun _ => 1 :=
      (Problem.normal_of_constraint? (Problem.constraint?_inequality _ 0)).trans
        (Problem.get_normal_crossing b).1
    rw [hfirst, Pi.smul_apply, smul_eq_mul, mul_one] at hsplit
    exact hsplit.symm
  have hblock : (it.workspace.aim c.normal).blocking direction 0 = none := by
    apply Workspace.blocking_eq_none
    intro k _ hk
    obtain rfl : k = 0 := by
      change k < it.workspace.count at hk
      omega
    rw [hfalls]
    norm_num
  have hstay := Workspace.canMove_eq_false hprimal
  exact ⟨_, Iterate.pass_of_stuck ⟨hc.symm, rfl, hdirection, Workspace.plan_of_stuck hstay hblock⟩⟩

/-- A solve has two heads, and in its second iteration a candidate that admits no step. -/
theorem Program.exists_run_crossing (hb : 0 ≤ b) (hgap : 200 * Scalar.epsilon < 1 - b)
    (hlimit : 2 ≤ limit) :
    ∃ (history : List (Admission ℝ 1 2 2)) (head : Iterate ℝ 1 2 2) (it it' : Iterate ℝ 1 2 2)
      (fresh : (Vector.replicate 2 false).get (1 : Fin 2) = false),
      (crossing b).Follows limit (Problem.crossingHead b) ⟨head, .head, 1, 2⟩ ∧
      (crossing b).Course limit none history ⟨head, .head, 1, 2⟩ ∧
      (crossing b).Course limit none history
        ⟨it, .pass (1 : Fin 2) (Vector.replicate 2 false) fresh, 2, 3⟩ ∧
      it.pass (Problem.crossing b) 1 = .settled .noStep it' := by
  obtain ⟨head, ⟨later, hlater⟩, hpoint, hfirst, hsecond⟩ := exists_secondHead hb hgap
    (show 1 ≤ limit by omega)
  have hcourse : (crossing b).Course limit none _ ⟨head, .head, 1, 2⟩ :=
    (course_crossingHead b limit).trans hlater
  obtain ⟨-, hslack⟩ := Problem.slack_crossing b head.point
  rw [hpoint] at hslack
  have hchosen : (head.evaluate (Problem.crossing b)).mostViolated (Vector.replicate 2 false) =
      some 1 := by
    apply Iterate.mostViolated_eq_some
    · refine (Iterate.isCandidate_replicate _ _).mpr ⟨hsecond, ?_⟩
      show ((Problem.crossing b).slacks head.point).get 1 < 0
      have hepsilon : 0 < (Scalar.epsilon : ℝ) := Scalar.epsilon_pos
      rw [hslack]
      linarith
    · intro k hk hne
      obtain rfl : k = 0 := by omega
      have hfree : head.isActive.get 0 = false := ((Iterate.isCandidate_replicate _ _).mp hk).1
      rw [hfirst] at hfree
      cases hfree
  have hnarrow : head.workspace.count ≤ 1 :=
    (columns_of_course (Problem.isSymmetric_crossing b) hcourse).factored.count_le
  have ⟨L, workspace, hfactor, hroom, hmachine⟩ := hcourse
  obtain ⟨ws, events, fresh, -, hpass⟩ :=
    hmachine.to_pass (violated_crossing hgap head.point) (show 1 < limit.toNat by omega)
      (by omega) hchosen
  have hcourse' : (crossing b).Course limit none _ _ := ⟨L, workspace, hfactor, hroom, hpass⟩
  obtain ⟨it', hnoStep⟩ := noStep_crossing hcourse' hfirst
  exact ⟨_, head, _, it', fresh, ⟨later, hlater⟩, hcourse, hcourse', hnoStep⟩

/-- The solve ends in its second iteration with a round-off error. -/
theorem Program.solve_crossing (hb : 0 ≤ b) (hgap : 200 * Scalar.epsilon < 1 - b)
    (hlimit : 2 ≤ limit) :
    ∃ answer : Solution ℝ 1 0 2, ((crossing b).solve none limit none).outcome = .ok answer ∧
      answer.status = .roundOff ∧ answer.iterations = 2 := by
  obtain ⟨history, head, it, it', fresh, -, -, hcourse, hnoStep⟩ :=
    exists_run_crossing hb hgap hlimit
  have hstop : (crossing b).step limit
      ⟨it, .pass (1 : Fin 2) (Vector.replicate 2 false) fresh, 2, 3⟩ = .stop .roundOff _ :=
    Machine.stop_of_noStep hnoStep
  obtain ⟨answer, hanswer, hstatus, hconcludes⟩ :=
    exists_answer_nearest _ _ one_pos two_ne_zero (by omega) hcourse hstop
  exact ⟨answer, hanswer, hstatus, hconcludes.iterations_eq⟩

end Course

end Crossing

namespace Program

/-- Between two bounds that exclude each other the value does not fall from the first head to the
second, nor in the pass that ends the solve, and the multipliers are not negative. -/
theorem ascent_of_solve_crossing :
    (crossing 0).problem.quadratic.IsSymmetric ∧
      ∃ (history : List (Admission ℝ 1 2 2)) (head it : Iterate ℝ 1 2 2)
        (fresh : (Vector.replicate 2 false).get (1 : Fin 2) = false) (answer : Solution ℝ 1 0 2),
        (crossing 0).Follows 100 (Problem.crossingHead 0) ⟨head, .head, 1, 2⟩ ∧
        (Problem.crossingHead 0).iterate.value ≤ head.value ∧
        (crossing 0).Course 100 none history
          ⟨it, .pass (1 : Fin 2) (Vector.replicate 2 false) fresh, 2, 3⟩ ∧
        it.Advances (Problem.crossing 0) 1 ∧
        ((crossing 0).solve none 100 none).outcome = .ok answer ∧
        ∀ i, 0 ≤ answer.inequalityMultipliers.get i := by
  have hsymmetric : (crossing 0).problem.quadratic.IsSymmetric := Problem.isSymmetric_crossing 0
  obtain ⟨history, head, it, it', fresh, hfollows, -, hcourse, -⟩ :=
    exists_run_crossing (le_refl 0) apart_crossing (show (2 : Int) ≤ 100 by decide)
  obtain ⟨answer, hanswer, -, -⟩ :=
    solve_crossing (le_refl 0) apart_crossing (show (2 : Int) ≤ 100 by decide)
  obtain ⟨hrun, hread⟩ := ascent_of_solve hsymmetric 100 none
  exact ⟨hsymmetric, history, head, it, fresh, answer, hfollows,
    (hrun _ _ _ (course_crossingHead 0 100)).2.1 _ rfl hfollows rfl, hcourse,
    (hrun _ _ _ hcourse).1 (1 : Fin 2) _ fresh rfl, hanswer, (hread none answer hanswer).1⟩

end Program

end ActiveSet

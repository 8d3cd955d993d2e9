import ActiveSet.Proofs.Units
import ActiveSet.Proofs.Columns
import ActiveSet.Proofs.Rollback
/-
  What a scaled objective changes

  Multiplying the objective by `s` moves no minimum, and a solve over the reals
  would not notice, were it not for its thresholds: `epsilon` is compared with
  numbers that grow or shrink with the objective. `Machine.Indifferent` lists
  the comparisons of a state that could come out differently. If none does
  in the states of a solve, then the scaled program has the same outcome up to
  the units (`outcome_times`): the same fault, or an answer with the same
  status, point, active set and counters, and with its value and multipliers
  times `s`.

  The comparisons of a deletion are not on the list. No rotation of a
  deletion is skipped in either solve, since the diagonals of both triangles
  stay above the threshold (`turnsAlike_erasePairs`).

  The condition cannot be left out. At a wall where the one solve ends at the
  bound, the other never moves (`not_outcome_times`).
-/

open Matrix

namespace ActiveSet

variable {n e m slots slots' : Nat} {s : ℝ}

/-! ## The comparisons -/

/-- Whether the tests made with a normal in hand come out the same for the objective times `s`. -/
structure Workspace.Indifferent (s : ℝ) (ws : Workspace ℝ n slots) : Prop where
  moves : s * s * Scalar.epsilon < ws.primal.get ⬝ᵥ ws.primal.get ↔
    Scalar.epsilon < ws.primal.get ⬝ᵥ ws.primal.get
  turns : ∀ ab ∈ ws.foldPairs,
    (Scalar.hypot ab.1 ab.2 < √s * Scalar.epsilon ↔ Scalar.hypot ab.1 ab.2 < Scalar.epsilon)
  folds : ws.count < n → (|ws.pivot| ≤ Scalar.epsilon * max √s ws.pivotScale ↔
    |ws.pivot| ≤ Scalar.epsilon * ws.pivotScale)
  /-- A pivot scale of one may stand for smaller pivots. -/
  foldsSmall : ws.count < n → ws.pivotScale = 1 →
    (|ws.pivot| ≤ Scalar.epsilon * √s ↔ |ws.pivot| ≤ Scalar.epsilon)

/-- Whether the tests that a state leads to come out the same for the objective times `s`. -/
structure Machine.Indifferent (s : ℝ) (P : Problem ℝ n e m) (tolerance : ℝ)
    (t : Machine ℝ n slots m) : Prop where
  head : t.phase = .head → (|P.infeasibilityAt t.iterate.point| ≤ √s * tolerance ↔
    |P.infeasibilityAt t.iterate.point| ≤ tolerance)
  inHand : ∀ c, t.inHand P = some c → (t.iterate.workspace.aim c.normal).Indifferent s
  /-- A step that is blocked before the full one counts as full in both solves or in none. -/
  near : ∀ candidate excluded fresh, t.phase = .pass candidate excluded fresh →
    let c := P.inequalities.get candidate
    let ws := t.iterate.workspace.aim c.normal
    ∀ (direction : Vector ℝ ws.count) (ratio full : ℝ) (dropped : Label),
      ws.dualDirection = .ok direction → ws.blocking direction e = some (ratio, dropped) →
      ws.fullStep (t.iterate.slack.get candidate) (ws.curvature c) = some full → ratio < full →
        (s * (full - ratio) < Scalar.epsilon ↔ full - ratio < Scalar.epsilon)

/-- A threshold that lies between two others decides as they do if they agree. -/
theorem le_iff_of_between {x a b c : ℝ} {p : Prop} (ha : x ≤ a ↔ p) (hb : x ≤ b ↔ p)
    (hac : min a b ≤ c) (hcb : c ≤ max a b) : x ≤ c ↔ p := by
  constructor
  · intro h
    rcases le_max_iff.mp (h.trans hcb) with h | h
    · exact ha.mp h
    · exact hb.mp h
  · intro h
    exact (le_min (ha.mpr h) (hb.mpr h)).trans hac

namespace Workspace.Indifferent

variable {ws : Workspace ℝ n slots}

theorem canMove_eq (h : ws.Indifferent s) (hs : 0 < s) :
    Scalar.lt Scalar.epsilon (Scalar.abs (Vec.dot (ws.primal.map (Gauge.times hs).primal)
      (ws.primal.map (Gauge.times hs).primal))) = ws.canMove := by
  have hshorter : Vec.dot (ws.primal.map (Gauge.times hs).primal)
      (ws.primal.map (Gauge.times hs).primal) = ws.primal.get ⬝ᵥ ws.primal.get / (s * s) := by
    rw [Vec.dot_eq, dotProduct, dotProduct, Finset.sum_div]
    refine Finset.sum_congr rfl fun i _ => ?_
    rw [Vector.get_map]
    exact div_mul_div_comm _ _ _ _
  have hnonneg : 0 ≤ ws.primal.get ⬝ᵥ ws.primal.get :=
    Finset.sum_nonneg fun i _ => mul_self_nonneg _
  rw [Workspace.canMove, hshorter, Vec.dot_eq, Scalar.lt_real, Scalar.lt_real, Scalar.abs_real,
    Scalar.abs_real, abs_of_nonneg hnonneg, abs_of_nonneg (by positivity), decide_eq_decide,
    lt_div_iff₀ (mul_pos hs hs), mul_comm Scalar.epsilon]
  exact h.moves

/-- The pivot test comes out the same for every greatest pivot that the pivot scale stands for. -/
theorem pivot_le_iff (h : ws.Indifferent s) (hroom : ws.count < n) {greatest : ℝ}
    (hscale : ws.pivotScale = max 1 greatest) :
    |ws.pivot| ≤ Scalar.epsilon * max √s greatest ↔
      |ws.pivot| ≤ Scalar.epsilon * ws.pivotScale := by
  have hfolds := h.folds hroom
  -- the greatest pivot is known unless it is below one
  rcases le_or_gt 1 greatest with hlarge | hsmall
  · rwa [hscale, max_eq_right hlarge] at hfolds ⊢
  · have hone : ws.pivotScale = 1 := by rw [hscale, max_eq_left hsmall.le]
    have hlow := h.foldsSmall hroom hone
    rw [hone, mul_one] at hfolds ⊢
    refine le_iff_of_between hlow hfolds (min_le_of_left_le ?_) (le_max_of_le_right ?_)
    · exact mul_le_mul_of_nonneg_left (le_max_left _ _) Scalar.epsilon_pos.le
    · exact mul_le_mul_of_nonneg_left (max_le_max_left _ hsmall.le) Scalar.epsilon_pos.le

theorem steady (h : ws.Indifferent s) (hs : 0 < s) : ws.Steady (Gauge.times hs) := by
  have hr : 0 < √s := Real.sqrt_pos.mpr hs
  refine ⟨h.canMove_eq hs, ?_, ?_⟩
  · intro ab hab
    rw [← (Gauge.times hs).image_hypot, Scalar.lt_real, Scalar.lt_real, decide_eq_decide,
      ← h.turns ab hab, mul_comm]
    exact div_lt_iff₀ hr
  · rintro hroom r ⟨greatest, -, hscale, rfl⟩
    have hscaled : max 1 (greatest / √s) = max √s greatest / √s := by
      rw [← max_div_div_right hr.le, div_self hr.ne']
    rw [Scalar.le_real, Scalar.le_real, decide_eq_decide, Scalar.abs_real, Scalar.abs_real,
      ← h.pivot_le_iff hroom hscale, hscaled]
    show |ws.pivot / √s| ≤ _ ↔ _
    rw [abs_div, abs_of_pos hr, ← mul_div_assoc, div_le_div_iff_of_pos_right hr]

end Workspace.Indifferent

/-! ## Deletions -/

namespace Gauge

variable {g : Gauge ℝ}

open Workspace

theorem hypot_image_pairAt (f : ℝ → ℝ) (v : Fin n → ℝ) (j : Nat) :
    pairAt (fun i => f (v i)) j = (pairAt v j).map fun ab => (f ab.1, f ab.2) := by
  unfold pairAt
  split <;> rfl

/-- Rotations that are skipped in neither gauge come out alike. -/
theorem turnsAlike_of_kept {count remaining j : Nat} {t : Mat ℝ n n × Mat ℝ n n}
    (h : ∀ ab ∈ retriangulatedPairs count remaining j t, ¬ IsSkipped ab)
    (h' : ∀ ab ∈ retriangulatedPairs count remaining j (t.1.map g.image, t.2.map g.image),
      ¬ IsSkipped ab) : g.TurnsAlike (retriangulatedPairs count remaining j t) := by
  -- column by column, since the pairs of a column are images only once those before it are
  induction remaining generalizing j t with
  | zero => exact fun ab hab => absurd hab List.not_mem_nil
  | succ k ih =>
    unfold retriangulatedPairs at h h' ⊢
    have hfirst : g.TurnsAlike
        (if h : j < n then pairAt (fun i => t.1.entry i ⟨j, h⟩) j else []) := by
      intro ab hab
      have hkept := h ab (List.mem_append_left _ hab)
      have hkept' := h' (g.image ab.1, g.image ab.2) (List.mem_append_left _ (by
        split
        · next hj =>
          rw [dif_pos hj] at hab
          simp only [Mat.entry_map, hypot_image_pairAt]
          exact List.mem_map_of_mem hab
        · next hj =>
          rw [dif_neg hj] at hab
          exact absurd hab List.not_mem_nil))
      rw [IsSkipped] at hkept hkept'
      rw [Scalar.lt_real, Scalar.lt_real, decide_eq_false hkept, decide_eq_false hkept']
    have hrest := ih (fun ab hab => h ab (List.mem_append_right _ hab)) fun ab hab =>
      h' ab (List.mem_append_right _ (by rw [clearBelow_image hfirst]; exact hab))
    exact fun ab hab => (List.mem_append.mp hab).elim (hfirst ab) (hrest ab)

/-- The rotations of a deletion come out alike where both factorizations are sound. -/
theorem turnsAlike_erasePairs {A A' : Mat ℝ n n} {ws : Workspace ℝ n slots}
    {ws' : Workspace ℝ n slots'} {normal normal' : Nat → Fin n → ℝ} {residue residue' : Nat → ℝ}
    (halike : ws.Alike g ws') (h : Factored A ws.factors normal residue)
    (h' : Factored A' ws'.factors normal' residue') {p : Nat} (hp : p < ws.count) :
    g.TurnsAlike (ws.erasePairs p) := by
  refine turnsAlike_of_kept (h.not_isSkipped_erasePairs hp) ?_
  have hkept := h'.not_isSkipped_erasePairs (halike.count.symm ▸ hp)
  have hbasis : ws'.basis = ws.basis.map g.image := halike.factors.basis
  have htriangle : ws'.triangle = ws.triangle.map g.image := halike.factors.triangle
  rwa [erasePairs, halike.count, hbasis, htriangle, closeColumn_image] at hkept

end Gauge

/-! ## States -/

theorem Machine.Indifferent.steadyStep {P : Problem ℝ n e m} {tolerance : ℝ}
    {t : Machine ℝ n slots m} (h : t.Indifferent s P tolerance) (hs : 0 < s) {candidate : Fin m}
    {excluded : Vector Bool m} {fresh : excluded.get candidate = false}
    (hphase : t.phase = .pass candidate excluded fresh) {c : Constraint ℝ n}
    (hc : c = P.inequalities.get candidate) :
    (t.iterate.workspace.aim c.normal).SteadyStep (Gauge.times hs) e
      (t.iterate.slack.get candidate) ((t.iterate.workspace.aim c.normal).curvature c) := by
  subst hc
  intro direction step full hdirection hstep hfull
  simp only [Workspace.finiteStep_real] at hstep hfull
  -- a step that is not cut short is the full one, in both units
  have hsame (heq : step = full) : Scalar.lt (Scalar.abs ((Gauge.times hs).dual step -
      (Gauge.times hs).dual full)) Scalar.epsilon =
        Scalar.lt (Scalar.abs (step - full)) Scalar.epsilon := by
    rw [heq, sub_self, sub_self]
  rw [hfull] at hstep
  cases hblock : (t.iterate.workspace.aim (P.inequalities.get candidate).normal).blocking
      direction e with
  | none =>
    rw [hblock] at hstep
    refine hsame ?_
    simpa [shorterStep] using hstep.symm
  | some b =>
    obtain ⟨ratio, dropped⟩ := b
    rw [hblock] at hstep
    have hmin : step = min ratio full := by simpa [shorterStep] using hstep.symm
    rcases lt_or_ge ratio full with hless | hge
    · have hnear := h.near _ _ _ hphase direction ratio full dropped hdirection hblock hfull hless
      rw [hmin, min_eq_left hless.le, Scalar.lt_real, Scalar.lt_real, decide_eq_decide,
        Scalar.abs_real, Scalar.abs_real, abs_sub_comm ratio, abs_of_pos (sub_pos.mpr hless),
        ← hnear]
      show |s * ratio - s * full| < _ ↔ _
      rw [← mul_sub, abs_mul, abs_of_pos hs, abs_sub_comm, abs_of_pos (sub_pos.mpr hless)]
    · exact hsame (hmin.trans (min_eq_right hge))

/-- The answer for the objective multiplied by `s`. -/
noncomputable def Solution.times (s : ℝ) (answer : Solution ℝ n e m) : Solution ℝ n e m :=
  { answer with
    value := s * answer.value
    equalityMultipliers := Vec.scale s answer.equalityMultipliers
    inequalityMultipliers := Vec.scale s answer.inequalityMultipliers }

theorem Solution.times_unconstrained (hs : 0 < s) (P : Problem ℝ n e m) (L : Mat ℝ n n) :
    let x := P.unconstrainedPoint L
    let x' := (P.times s).unconstrainedPoint (L.map (√s * ·))
    unconstrained (P.times s) x' ((P.times s).unconstrainedValue x') =
      (unconstrained P x (P.unconstrainedValue x)).times s := by
  intro x x'
  have hrestates := P.restates_times hs L
  have hpoint : x' = x := hrestates.point
  have hvalue : (P.times s).unconstrainedValue x = s * P.unconstrainedValue x := hrestates.value
  have hzero (k : Nat) : Vec.zero k = Vec.scale s (Vec.zero k) :=
    (Vec.zero_map (s * ·) (mul_zero s)).symm
  rw [hpoint, hvalue, unconstrained, times, unconstrained, ← hzero, ← hzero]
  rfl

namespace Program

variable {program : Program ℝ} {guess : Option (Guess ℝ)} {limit : Int}
  {buffers : Option (Buffers ℝ)} {L : Mat ℝ program.dimension program.dimension}

/-- The program with its objective multiplied by `s`. -/
noncomputable def times (s : ℝ) (program : Program ℝ) : Program ℝ := ⟨program.problem.times s⟩

theorem factor_times (hs : 0 < s) (hfactor : Dense.factor program.problem.quadratic = .ok L) :
    Dense.factor (program.times s).problem.quadratic = .ok (L.map (√s * ·)) := by
  rw [Cholesky.factor_eq_ok] at hfactor ⊢
  show Cholesky.factor? (program.problem.quadratic.map (s * ·)) = _
  rw [Cholesky.factor?_times hs, hfactor]
  rfl

theorem prepare_times (hs : 0 < s) (guess : Option (Guess ℝ)) (limit : Int) :
    (program.times s).prepare guess limit =
      (program.prepare guess limit).map fun L => L.map (√s * ·) := by
  have hfactor : Dense.factor (program.problem.quadratic.map (s * ·)) =
      (Dense.factor program.problem.quadratic).map fun L => L.map (√s * ·) := by
    rw [Cholesky.factor_eq, Cholesky.factor_eq, Cholesky.factor?_times hs]
    cases Cholesky.factor? program.problem.quadratic <;> rfl
  unfold prepare
  by_cases hlimit : limit < 0
  · simp only [if_pos hlimit]
    rfl
  · simp only [if_neg hlimit]
    cases guess with
    | none => exact hfactor
    | some guess =>
      show guess.values.tensor.bind _ = (guess.values.tensor.bind _).map _
      cases guess.values.tensor with
      | error fault => rfl
      | ok t =>
        show (if t.size ≠ program.dimension then _ else _) =
          (if t.size ≠ program.dimension then _ else _ : Except Fault _).map _
        split
        · rfl
        · exact hfactor

section Solve

variable (hs : 0 < s) (hsymmetric : program.problem.quadratic.IsSymmetric)
  (hindifferent : ∀ {slots : Nat}
    (history : List (Admission ℝ program.dimension slots program.inequalityCount))
    (t : Machine ℝ program.dimension slots program.inequalityCount),
    program.Course limit buffers history t → t.Indifferent s program.problem program.tolerance)
include hs hsymmetric hindifferent

theorem outcome_solveFrom_times {workspace : Workspace ℝ program.dimension slots}
    (hfactor : Dense.factor program.problem.quadratic = .ok L)
    (hroom : program.room buffers = .ok ⟨slots, workspace⟩) :
    ((program.times s).problem.solveFrom (L.map (√s * ·)) limit.toNat workspace).outcome =
      (program.problem.solveFrom L limit.toNat workspace).outcome.map (Solution.times s) := by
  have hfactor' := factor_times hs hfactor
  have htolerance := tolerance_eq hfactor
  have htolerance' := tolerance_eq hfactor'
  refine Problem.outcome_of_restates (program.problem.restates_times hs L) workspace workspace
    (room_le hroom) (room_le hroom) ?_
  intro history history' t t' hcourse hcourse' halike
  rw [← htolerance] at hcourse ⊢
  have hprogram : program.Course limit buffers history t :=
    ⟨L, workspace, hfactor, hroom, hcourse⟩
  have hprogram' : (program.times s).Course limit buffers history' t' := by
    refine ⟨L.map (√s * ·), workspace, hfactor', hroom, ?_⟩
    rw [htolerance']
    exact hcourse'
  have hverdicts := hindifferent history t hprogram
  have hcolumns := columns_of_course hsymmetric hprogram
  have hcolumns' := columns_of_course (Problem.isSymmetric_times hsymmetric s) hprogram'
  refine ⟨?_, fun c hc => (hverdicts.inHand c hc).steady hs, ?_, ?_⟩
  · intro hphase
    rw [Problem.tolerance_times hs, ← htolerance, Scalar.le_real, Scalar.le_real, decide_eq_decide]
    exact hverdicts.head hphase
  · intro candidate excluded fresh hphase c hc
    exact hverdicts.steadyStep hs hphase hc
  · intro candidate excluded fresh hphase p hp
    exact Gauge.turnsAlike_erasePairs halike.iterate.workspace hcolumns.factored
      hcolumns'.factored hp

/-- A solve that no test of which depends on the scale of the objective has the same outcome for
every multiple of it, up to the units. -/
theorem outcome_times (guess : Option (Guess ℝ)) :
    ((program.times s).solve guess limit buffers).outcome =
      (program.solve guess limit buffers).outcome.map (Solution.times s) := by
  unfold solve
  rw [prepare_times hs]
  cases hprepare : program.prepare guess limit with
  | error fault => rfl
  | ok L =>
    have hfactor := factor_of_prepare hprepare
    simp only [Except.map]
    by_cases hnone : program.constraintCount = 0
    · have hnone' : (program.times s).constraintCount = 0 := hnone
      simp only [if_pos hnone, if_pos hnone']
      exact congrArg Except.ok (Solution.times_unconstrained hs program.problem L)
    · have hnone' : ¬ (program.times s).constraintCount = 0 := hnone
      simp only [if_neg hnone, if_neg hnone']
      cases buffers with
      | none => exact outcome_solveFrom_times hs hsymmetric hindifferent hfactor rfl
      | some b =>
        cases hfit : b.fit program with
        | error fault =>
          have hfit' : b.fit (program.times s) = .error fault := hfit
          simp only [hfit, hfit']
          rfl
        | ok ws =>
          have hfit' : b.fit (program.times s) = .ok ws := hfit
          have hroom : program.room (some b) = .ok ⟨b.slots, ws⟩ := by
            rw [room, hfit]
            rfl
          simp only [hfit, hfit']
          exact outcome_solveFrom_times hs hsymmetric hindifferent hfactor hroom

end Solve

end Program

/-! ## At a wall -/

theorem Machine.indifferent_of_head {P : Problem ℝ n e m} {tolerance : ℝ} {t : Machine ℝ n slots m}
    (hphase : t.phase = .head) (h : |P.infeasibilityAt t.iterate.point| ≤ √s * tolerance ↔
      |P.infeasibilityAt t.iterate.point| ≤ tolerance) : t.Indifferent s P tolerance := by
  refine ⟨fun _ => h, fun c hc => ?_, fun candidate excluded fresh hpass => ?_⟩
  · rw [inHand, hphase] at hc
    cases hc
  · cases hphase.symm.trans hpass

theorem Machine.indifferent_of_select {P : Problem ℝ n e m} {tolerance : ℝ}
    {t : Machine ℝ n slots m} {excluded : Vector Bool m} (hphase : t.phase = .select excluded) :
    t.Indifferent s P tolerance := by
  refine ⟨fun hhead => ?_, fun c hc => ?_, fun candidate excluded fresh hpass => ?_⟩
  · cases hphase.symm.trans hhead
  · rw [inHand, hphase] at hc
    cases hc
  · cases hphase.symm.trans hpass

/-- The pass for the bound of a wall depends on the scale by its length and its diagonal entry
only. -/
theorem Outset.indifferent {p ν β : ℝ} {it : Iterate ℝ 1 1 1} (h : Outset p ν β it)
    (hmoves : s * s * Scalar.epsilon < p * (p * ν) * (p * (p * ν)) ↔
      Scalar.epsilon < p * (p * ν) * (p * (p * ν)))
    (hfolds : |p * ν| ≤ Scalar.epsilon * max √s 1 ↔ |p * ν| ≤ Scalar.epsilon)
    (hsmall : |p * ν| ≤ Scalar.epsilon * √s ↔ |p * ν| ≤ Scalar.epsilon) (tolerance : ℝ)
    {excluded : Vector Bool 1} {fresh : excluded.get (0 : Fin 1) = false}
    {iterations evaluations : Nat} :
    (⟨it, .pass 0 excluded fresh, iterations, evaluations⟩ : Machine ℝ 1 1 1).Indifferent s
      (Problem.wall p ν β) tolerance := by
  have hnormal := Problem.get_normal_wall p ν β
  generalize hc : (Problem.wall p ν β).inequalities.get 0 = c at hnormal
  have hcount : (it.workspace.aim c.normal).count = 0 := h.count
  have hscale : (it.workspace.aim c.normal).pivotScale = 1 := h.scale
  have hpivot : (it.workspace.aim c.normal).pivot = p * ν := by
    show Vec.extend (it.workspace.aim c.normal).image (it.workspace.aim c.normal).count = _
    rw [hcount, Vec.extend_of_lt _ Nat.one_pos, h.get_image hnormal]
  refine ⟨fun hhead => (by cases hhead), fun c' hc' => ?_, ?_⟩
  · obtain rfl : c = c' := hc.symm.trans (Option.some.inj hc')
    refine ⟨?_, ?_, fun _ => ?_, fun _ _ => ?_⟩
    · rw [h.get_primal hnormal]
      simpa [dotProduct] using hmoves
    · rw [Workspace.foldPairs_of_last (Nat.le_add_left 1 _)]
      exact fun ab hab => absurd hab List.not_mem_nil
    · rwa [hpivot, hscale, mul_one]
    · rwa [hpivot]
  -- nothing is active, so nothing blocks the step
  · intro candidate excluded' fresh' hphase
    cases hphase
    rw [hc]
    intro _ _ direction ratio full dropped _ hblock
    rw [Workspace.blocking_of_empty hcount direction 0] at hblock
    cases hblock

namespace Problem

/-- A wall with its objective multiplied by `s` is the wall for another scale. -/
theorem times_wall {p q ν β : ℝ} (h : s * (1 / p * (1 / p)) = 1 / q * (1 / q)) :
    (wall p ν β).times s = wall q ν β := by
  have hquadratic : (Mat.diagonal fun _ : Fin 1 => 1 / p * (1 / p)).map (s * ·) =
      Mat.diagonal fun _ => 1 / q * (1 / q) := by
    apply Mat.ext_entry
    intro i j
    rw [Mat.entry_map, Mat.entry_diagonal, Mat.entry_diagonal, mul_ite, mul_zero, h]
  have hlinear : Vec.scale s (Vec.zero 1) = Vec.zero 1 := Vec.zero_map (s * ·) (mul_zero s)
  show (⟨(Mat.diagonal fun _ : Fin 1 => 1 / p * (1 / p)).map (s * ·), Vec.scale s (Vec.zero 1),
    #v[], #v[⟨#v[ν], β⟩]⟩ : Problem ℝ 1 0 1) = _
  rw [hquadratic, hlinear]
  rfl

end Problem

namespace Program

/-- On the way to the bound of a wall no test depends on a factor of four. -/
theorem indifferent_wall {slots : Nat} (history : List (Admission ℝ 1 slots 1))
    (t : Machine ℝ 1 slots 1) (h : (wall 1 1 1).Course 100 none history t) :
    t.Indifferent 4 (wall 1 1 1).problem (wall 1 1 1).tolerance := by
  have hr : √(4 : ℝ) = 2 := by
    rw [show (4 : ℝ) = 2 * 2 by norm_num]
    exact Real.sqrt_mul_self (by norm_num)
  have hε : (0 : ℝ) < Scalar.epsilon := Scalar.epsilon_pos
  have hε' : (Scalar.epsilon : ℝ) < 1 / 1000 := by
    rw [Scalar.epsilon_real]
    norm_num
  have htolerance : (wall 1 1 1).tolerance = 100 * Scalar.epsilon := by
    rw [tolerance_wall one_pos, div_one]
  have hfar : 100 * Scalar.epsilon / 1 < (1 : ℝ) := by linarith
  have hmove : Scalar.epsilon < (1 * (1 * 1) * (1 * (1 * 1)) : ℝ) := by linarith
  have hlong : Scalar.epsilon < |(1 * 1 : ℝ)| := by
    rw [mul_one, abs_one]
    linarith
  obtain ⟨s₁, s₂, final, it, fresh, hbegun, hphase, hchosen, houtset, hadded, hhead, hpoint,
    hstop⟩ := exists_added one_pos hfar hmove hlong (show (1 : Int) ≤ 100 by decide)
  have hlast : Machine.IsLast (wall 1 1 1).problem (100 : Int).toNat (wall 1 1 1).tolerance s₂ :=
    Machine.isLast_of_stop hstop
  obtain ⟨L, workspace, hfactor, hroom, hcourse⟩ := h
  obtain rfl := Except.ok.inj ((Problem.factor_nearest _ _ one_pos).symm.trans hfactor)
  cases hroom
  -- the five states of the solve, one after the other
  rcases hcourse.eq_or_of_next (Machine.step_of_allMet (le_refl 0)) with rfl | ⟨_, hcourse⟩
  · refine ⟨fun hhead => (by cases hhead), fun c hc => (by cases hc), ?_⟩
    exact fun candidate excluded fresh hpass => (by cases hpass)
  rcases hcourse.eq_or_of_next hbegun with rfl | ⟨_, hcourse⟩
  · refine Machine.indifferent_of_head rfl ?_
    have hfirst : (wall 1 1 1).problem.infeasibilityAt
        (Problem.wallHead 1 1 1).iterate.point = -1 := by
      refine (Problem.infeasibilityAt_wall 1 1 1 _).trans ?_
      have hzero : (Problem.wallHead 1 1 1).iterate.point.get = 0 :=
        Problem.point_origin _ _ one_pos
      rw [hzero]
      norm_num
    show |(wall 1 1 1).problem.infeasibilityAt (Problem.wallHead 1 1 1).iterate.point| ≤ _ ↔
      |(wall 1 1 1).problem.infeasibilityAt (Problem.wallHead 1 1 1).iterate.point| ≤ _
    rw [hfirst, htolerance, hr, abs_neg, abs_one]
    constructor <;> intro <;> linarith
  rcases hcourse.eq_or_of_next hchosen with rfl | ⟨_, hcourse⟩
  · exact Machine.indifferent_of_select hphase
  rcases hcourse.eq_or_of_next hadded with rfl | ⟨_, hcourse⟩
  · refine houtset.indifferent ?_ ?_ ?_ _
    · constructor <;> intro <;> linarith
    · rw [hr, mul_one, abs_one, max_eq_left one_le_two]
      constructor <;> intro <;> linarith
    · rw [hr, mul_one, abs_one]
      constructor <;> intro <;> linarith
  · obtain ⟨-, rfl⟩ := hcourse.eq_of_isLast hlast
    refine Machine.indifferent_of_head hhead ?_
    have hinfeasible : (wall 1 1 1).problem.infeasibilityAt t.iterate.point = 0 := by
      refine (Problem.infeasibilityAt_wall 1 1 1 t.iterate.point).trans ?_
      rw [hpoint, sub_self, min_self]
    rw [hinfeasible, htolerance, hr, abs_zero]
    constructor <;> intro <;> linarith

/-- Four times the objective has the same answer, with four times the value and multipliers. -/
theorem outcome_times_wall : ∃ answer : Solution ℝ 1 0 1,
    ((wall 1 1 1).solve none 100 none).outcome = .ok answer ∧
      (((wall 1 1 1).times 4).solve none 100 none).outcome = .ok (answer.times 4) ∧
      answer.status = .proper ∧ answer.point.get 0 = 1 := by
  obtain ⟨answer, hanswer, hstatus, hpoint⟩ := solve_wall_one
  refine ⟨answer, hanswer, ?_, hstatus, hpoint⟩
  refine (outcome_times (by norm_num) (Problem.isSymmetric_nearest _ _) indifferent_wall
    none).trans ?_
  rw [hanswer]
  rfl

end Program

/-- Where the point cannot move the solve is stuck. -/
theorem Outset.stuck {p ν β : ℝ} {it : Iterate ℝ 1 1 1} (h : Outset p ν β it)
    (hstay : p * (p * ν) * (p * (p * ν)) ≤ Scalar.epsilon) :
    ∃ it', it.pass (Problem.wall p ν β) 0 = .settled .noStep it' := by
  have hnormal := Problem.get_normal_wall p ν β
  generalize hc : (Problem.wall p ν β).inequalities.get 0 = c at hnormal
  have hcount : (it.workspace.aim c.normal).count = 0 := h.count
  obtain ⟨direction, hdirection⟩ := Workspace.exists_dualDirection_of_empty hcount
  have hmove : (it.workspace.aim c.normal).canMove = false := by
    rw [Bool.eq_false_iff, ne_eq, h.canMove_iff hnormal]
    exact not_lt.mpr hstay
  have hblock := Workspace.blocking_of_empty hcount direction 0
  exact ⟨_, Iterate.pass_of_stuck ⟨hc.symm, rfl, hdirection, Workspace.plan_of_stuck hmove hblock⟩⟩

namespace Program

/-- Where the point cannot move the solve ends at its outset. -/
theorem solve_wall_stuck {p ν β : ℝ} {limit : Int} (hp : 0 < p)
    (hfar : 100 * Scalar.epsilon / p < β)
    (hstay : p * (p * ν) * (p * (p * ν)) ≤ Scalar.epsilon) (hlimit : 1 ≤ limit) :
    ∃ answer : Solution ℝ 1 0 1, ((wall p ν β).solve none limit none).outcome = .ok answer ∧
      answer.status = .roundOff ∧ answer.point.get 0 = 0 := by
  obtain ⟨s, it, fresh, hbegun, -, hchosen, houtset⟩ := exists_outset hp hfar hlimit
  obtain ⟨it', hstuck⟩ := houtset.stuck hstay
  have hcourse := ((course_wallHead hp limit).next hbegun).next hchosen
  obtain ⟨answer, hanswer, hstatus, hconcludes⟩ :=
    exists_answer_wall hp (by omega) hcourse (Machine.stop_of_noStep hstuck)
  refine ⟨answer, hanswer, hstatus, ?_⟩
  rw [hconcludes.point_eq]
  exact congrFun houtset.point 0

/-- A hundred million times the objective has another answer: the solve ends where it set out, and
says that round-off kept it there. -/
theorem not_outcome_times : ¬ ∀ (program : Program ℝ) (s : ℝ) (guess : Option (Guess ℝ))
    (limit : Int), program.problem.quadratic.toMatrix.PosDef → 0 < s →
      ((program.times s).solve guess limit none).outcome =
        (program.solve guess limit none).outcome.map (Solution.times s) := by
  intro hclaim
  have hdefinite : (wall 1 1 1).problem.quadratic.toMatrix.PosDef := by
    show (Mat.diagonal fun _ : Fin 1 => (1 / 1 * (1 / 1) : ℝ)).toMatrix.PosDef
    rw [Mat.toMatrix_diagonal]
    exact Matrix.PosDef.diagonal fun _ => by norm_num
  have hfar : 100 * Scalar.epsilon / (1 / 10 ^ 4) < (1 : ℝ) := by
    rw [Scalar.epsilon_real]
    norm_num
  have hstay : (1 / 10 ^ 4 * (1 / 10 ^ 4 * 1) * (1 / 10 ^ 4 * (1 / 10 ^ 4 * 1)) : ℝ) ≤
      Scalar.epsilon := by
    rw [Scalar.epsilon_real]
    norm_num
  obtain ⟨answer, hanswer, hstatus, -⟩ := solve_wall_one
  obtain ⟨answer', hanswer', hstatus', -⟩ :=
    solve_wall_stuck (by norm_num) hfar hstay (show (1 : Int) ≤ 100 by decide)
  have hscaled : (Problem.wall 1 1 1).times (10 ^ 8) = Problem.wall (1 / 10 ^ 4) 1 1 :=
    Problem.times_wall (by norm_num)
  have hsame := hclaim (wall 1 1 1) (10 ^ 8) none 100 hdefinite (by norm_num)
  change ((⟨(Problem.wall 1 1 1).times (10 ^ 8)⟩ : Program ℝ).solve none 100 none).outcome = _
    at hsame
  rw [hscaled] at hsame
  have hlast := hanswer'.symm.trans (hsame.trans (congrArg (Except.map _) hanswer))
  injection hlast with hlast
  rw [hlast] at hstatus'
  cases hstatus.symm.trans hstatus'

end Program

end ActiveSet

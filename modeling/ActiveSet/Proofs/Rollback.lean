import ActiveSet.Proofs.Bookkeeping
import ActiveSet.Proofs.Heads
/-
  Undoing an iteration

  An iteration may try several candidates. Each is entered, may drop any
  number of active constraints on the way, and is undone when its fold turns
  out degenerate; what it has changed by then are the point, its value, both
  matrices, the dual values, the names, the flags and one slack. `RolledBack`
  says that nothing of this is left where the next candidate is chosen.

  The induction is over the states of the iteration (`rollback_of_iteration`).
  While a candidate is being added only two things carry it: the saved copy is
  still the state of the head, and the excluded candidates are those tried
  before this one. The flags are no part of the copy. They are read off the
  names again, and the names of the head give back the flags of the head
  (`Seating.flags_eq`).
-/

namespace ActiveSet

variable {α : Type} [Scalar α] {n e m slots : Nat}

namespace Machine

/-- The candidate that a transition takes up. -/
def takenUp (s s' : Machine α n slots m) : List (Fin m) :=
  match s.phase, s'.phase with
  | .select _, .pass candidate _ _ => [candidate]
  | _, _ => []

/-- The states of the iteration that begins at a head, each with the candidates tried so far, the
latest first. -/
inductive Iteration (P : Problem α n e m) (limit : Nat) (tolerance : α)
    (head : Machine α n slots m) : List (Fin m) → Machine α n slots m → Prop
  | begun {s : Machine α n slots m} (hphase : head.phase = .head)
      (hstep : head.step P limit tolerance = .next s) : Iteration P limit tolerance head [] s
  | next {tried : List (Fin m)} {s s' : Machine α n slots m} :
    Iteration P limit tolerance head tried s → s.step P limit tolerance = .next s' →
      s'.phase ≠ .head → Iteration P limit tolerance head (takenUp s s' ++ tried) s'

/-- Whether everything is as it was at the head of the iteration, and just the candidates tried
since then are excluded. -/
structure RolledBack (P : Problem α n e m) (head : Machine α n slots m) (tried : List (Fin m))
    (excluded : Vector Bool m) (s : Machine α n slots m) : Prop where
  snapshot : s.iterate.snapshot = head.iterate.snapshot
  isActive : s.iterate.isActive = head.iterate.isActive
  slack : s.iterate.slack = P.slacks s.iterate.point
  excluded : ∀ i, excluded.get i = true ↔ i ∈ tried
  nodup : tried.Nodup

/-- Whether the candidate in hand admits no step. -/
def IsStuck (P : Problem α n e m) (s : Machine α n slots m) : Prop :=
  ∃ candidate excluded fresh, s.phase = .pass candidate excluded fresh ∧
    ∃ it', s.iterate.pass P candidate = .settled .noStep it'

/-- What an iteration keeps, phase by phase. -/
def Recoverable (P : Problem α n e m) (head : Machine α n slots m) (tried : List (Fin m))
    (s : Machine α n slots m) : Prop :=
  match s.phase with
  | .select excluded =>
    RolledBack P head tried excluded s ∧ s.iterate.workspace.saved = head.iterate.snapshot
  | .pass candidate excluded _ =>
    s.iterate.workspace.saved = head.iterate.snapshot ∧
      ∃ before, tried = candidate :: before ∧ tried.Nodup ∧
        ∀ i, excluded.get i = true ↔ i ∈ before
  | _ => False

variable {P : Problem α n e m} {limit : Nat} {tolerance : α} {head s s' : Machine α n slots m}
  {tried : List (Fin m)}

/-- An iteration begins with everything as it is at its head, and saves it. -/
theorem recoverable_of_begun (hphase : head.phase = .head)
    (hstep : head.step P limit tolerance = .next s) : Recoverable P head [] s := by
  generalize hhead : head = h at hstep
  cases leads_of_step hstep with
  | begun hit hviolated hlimit =>
    subst hhead hit
    refine ⟨⟨rfl, rfl, rfl, fun i => ?_, List.nodup_nil⟩, rfl⟩
    simp [Vec.get_eq_getElem]
  | _ => subst hhead; cases hphase

/-- Undoing an iteration restores its head, the flags included. -/
theorem rolledBack_of_undo {it it' : Iterate α n slots m} {candidate : Fin m}
    {isActive : Vector Bool m} (hhead : head.iterate.Seated e)
    (hsaved : it.workspace.saved = head.iterate.snapshot)
    (hreached : it.Reached P candidate false it')
    (hflags : Iterate.flags m (it'.undo.workspace.labelsFrom e) = .ok isActive) :
    it'.undo.snapshot = head.iterate.snapshot ∧ isActive = head.iterate.isActive := by
  have hkept : it'.workspace.saved = head.iterate.snapshot := hreached.keeps.2.1.trans hsaved
  have hsnapshot : it'.undo.snapshot = head.iterate.snapshot := hkept
  have hcount : it'.undo.workspace.count = head.iterate.workspace.count :=
    congrArg Snapshot.count hsnapshot
  have hlabel (k : Nat) : it'.undo.workspace.label k = head.iterate.workspace.label k := by
    rw [← Iterate.label_snapshot, hsnapshot, Iterate.label_snapshot]
  refine ⟨hsnapshot, hhead.seating.flags_eq (fun l => ?_) hflags⟩
  rw [Workspace.mem_labelsFrom (by rw [hcount]; exact hhead.count_le), hcount]
  simp only [hlabel]

theorem recoverable_of_leads (hhead : head.iterate.Seated e) (h : Recoverable P head tried s)
    (hleads : Leads P limit tolerance s s') (hphase : s'.phase ≠ .head) :
    Recoverable P head (takenUp s s' ++ tried) s' := by
  cases hleads with
  | met hmet => exact h.elim
  | allMet hi => exact h.elim
  | begun hit hviolated hlimit => exact h.elim
  | @chosen it ws excluded candidate events iterations evaluations hcandidate hplace fresh =>
    obtain ⟨hback, hsaved⟩ := h
    obtain ⟨_, hws⟩ := Workspace.place_ok hplace
    have hnew : candidate ∉ tried := fun hmem => by
      rw [(hback.excluded candidate).mpr hmem] at fresh
      cases fresh
    refine ⟨?_, tried, rfl, List.nodup_cons.mpr ⟨hnew, hback.nodup⟩, hback.excluded⟩
    show ws.saved = head.iterate.snapshot
    rw [hws]
    exact hsaved
  | dropped hdropped =>
    obtain ⟨hsaved, hbefore⟩ := h
    exact ⟨(saved_of_dropped hdropped).trans hsaved, hbefore⟩
  | added hreached => exact absurd rfl hphase
  | @undone it it' excluded isActive candidate fresh iterations evaluations events hreached
      hflags =>
    obtain ⟨hsaved, before, rfl, hnodup, hbefore⟩ := h
    obtain ⟨hsnapshot, hactive⟩ := rolledBack_of_undo hhead hsaved hreached hflags
    refine ⟨⟨hsnapshot, hactive, rfl, fun i => ?_, hnodup⟩, hreached.keeps.2.1.trans hsaved⟩
    -- the candidate that was undone joins those tried before it
    show (Vec.set excluded candidate true).get i = true ↔ i ∈ candidate :: before
    rw [Vec.get_set, List.mem_cons, ← hbefore, eq_comm (a := i)]
    split <;> simp_all

theorem Iteration.recoverable (hhead : head.iterate.Seated e)
    (h : Iteration P limit tolerance head tried s) : Recoverable P head tried s := by
  induction h with
  | begun hphase hstep => exact recoverable_of_begun hphase hstep
  | next _ hstep hphase ih => exact recoverable_of_leads hhead ih (leads_of_step hstep) hphase

theorem Iteration.head_phase (h : Iteration P limit tolerance head tried s) :
    head.phase = .head := by
  induction h with
  | begun hphase _ => exact hphase
  | next _ _ _ ih => exact ih

/-- Where the next candidate is chosen, everything is as it was at the head. -/
theorem Iteration.rolledBack {excluded : Vector Bool m} (hhead : head.iterate.Seated e)
    (h : Iteration P limit tolerance head tried s) (hphase : s.phase = .select excluded) :
    RolledBack P head tried excluded s := by
  have hkept := h.recoverable hhead
  rw [Recoverable, hphase] at hkept
  exact hkept.1

/-- A state in which a candidate is chosen or added belongs to an iteration. -/
theorem Course.exists_iteration {start : Machine α n slots m}
    {history : List (Admission α n slots m)} (hstart : start.phase = .equality 0)
    (h : Course P limit tolerance start history s) (hwithin : s.phase.isIterating = true) :
    ∃ earlier head tried, Course P limit tolerance start earlier head ∧
      Iteration P limit tolerance head tried s := by
  induction h with
  | start =>
    rw [hstart] at hwithin
    cases hwithin
  | @next history s s' hcourse hstep ih =>
    -- either the iteration begins here, or the state before belongs to it
    have hon (hbefore : s.phase.isIterating = true) (hphase : s'.phase ≠ .head) :
        ∃ earlier head tried, Course P limit tolerance start earlier head ∧
          Iteration P limit tolerance head tried s' := by
      obtain ⟨earlier, head, tried, hhead, hiteration⟩ := ih hbefore
      exact ⟨earlier, head, _, hhead, hiteration.next hstep hphase⟩
    cases leads_of_step hstep with
    | met hmet => cases hwithin
    | allMet hi => cases hwithin
    | begun hit hviolated hlimit => exact ⟨history, _, [], hcourse, .begun rfl hstep⟩
    | chosen hcandidate hplace fresh => exact hon rfl (by simp)
    | dropped hdropped => exact hon rfl (by simp)
    | added hreached => cases hwithin
    | undone hreached hflags => exact hon rfl (by simp)

/-- A solve that ends in a round-off error where a candidate is to be chosen has excluded one, and
has no other left. -/
theorem exhausted_of_roundOff {excluded : Vector Bool m} (hphase : s.phase = .select excluded)
    (h : s.step P limit tolerance = .stop .roundOff s') :
    s.iterate.mostViolated excluded = none ∧ ∃ i, excluded.get i = true := by
  simp only [step, hphase, selectStep] at h
  split at h
  · next hnone =>
    split at h
    · next hany =>
      obtain ⟨x, hx, htrue⟩ := Vector.any_eq_true'.mp hany
      obtain ⟨i, hi, rfl⟩ := Vector.mem_iff_getElem.mp hx
      exact ⟨hnone, ⟨i, hi⟩, htrue⟩
    · cases h
  · split at h <;> cases h

end Machine

/-- Whether an answer has the point, the value, the active set and the multipliers of an
iterate. -/
structure Solution.Carries (answer : Solution α n e m) (it : Iterate α n slots m) : Prop where
  point : answer.point = it.point
  value : answer.value = it.value
  activeSet : answer.activeSet = it.workspace.labelsFrom e
  multipliers : Multipliers.ofMembers it.workspace.members =
    .ok ⟨answer.equalityMultipliers, answer.inequalityMultipliers⟩

namespace Program

variable {program : Program α} {limit : Int} {buffers : Option (Buffers α)}
  {answer : Solution α program.dimension program.equalityCount program.inequalityCount}
  {history : List (Admission α program.dimension slots program.inequalityCount)}
  {head last : Machine α program.dimension slots program.inequalityCount}

/-- An answer carries every iterate that has the snapshot of the last one. -/
theorem Concludes.carries (h : program.Concludes limit buffers answer history last)
    {it : Iterate α program.dimension slots program.inequalityCount}
    (hsnapshot : last.iterate.snapshot = it.snapshot) : answer.Carries it := by
  obtain ⟨final, hends, hanswer⟩ := h.ends
  obtain ⟨-, hpoint, hvalue, hset, hmultipliers⟩ := Solution.ofMachine_ok hanswer
  have hsame : final.iterate.snapshot = it.snapshot := hends.snapshot.trans hsnapshot
  -- the list of names and that of members are read off the snapshot
  have hlabels (it : Iterate α program.dimension slots program.inequalityCount) :
      it.workspace.labelsFrom program.equalityCount =
        (it.snapshot.active.toList.take it.snapshot.count).drop program.equalityCount := rfl
  have hmembers (it : Iterate α program.dimension slots program.inequalityCount) :
      it.workspace.members =
        (it.snapshot.active.toList.zip it.snapshot.duals.toList).take it.snapshot.count := rfl
  refine ⟨hpoint.trans (congrArg Snapshot.point hsame),
    hvalue.trans (congrArg Snapshot.value hsame), ?_, ?_⟩
  · rw [hset, hlabels, hsame, ← hlabels]
  · rw [← hmultipliers, hmembers, ← hsame, ← hmembers]

/-- Whether an answer is that of the head of an iteration which has tried some candidates, and at
which nothing else is violated and inactive. -/
structure Exhausts (program : Program α) (limit : Int)
    (answer : Solution α program.dimension program.equalityCount program.inequalityCount)
    (head : Machine α program.dimension slots program.inequalityCount)
    (tried : List (Fin program.inequalityCount))
    (last : Machine α program.dimension slots program.inequalityCount) : Prop where
  iteration : Machine.Iteration program.problem limit.toNat program.tolerance head tried last
  tried_ne : tried ≠ []
  others : ∀ i, head.iterate.isActive.get i = false →
    Scalar.lt ((program.problem.slacks head.iterate.point).get i) 0 = true → i ∈ tried
  carries : answer.Carries head.iterate

/-- The head of an iteration of a solve has its names seated behind the equalities. -/
theorem seated_of_head (h : program.Course limit buffers history head)
    (hphase : head.phase = .head) : head.iterate.Seated program.equalityCount := by
  have hstanding := standing_of_course h
  rw [Machine.Standing, hphase] at hstanding
  exact hstanding

/-- An answer with a round-off error comes from a candidate that admits no step, or is that of the
head of an iteration in which only candidates that were undone remain violated. -/
theorem Concludes.roundOff (h : program.Concludes limit buffers answer history last)
    (hstatus : answer.status = .roundOff) :
    last.IsStuck program.problem ∨
      ∃ earlier head tried, program.Course limit buffers earlier head ∧
        program.Exhausts limit answer head tried last := by
  obtain ⟨L, workspace, hfactor, hroom, hcourse⟩ := h.course
  obtain ⟨final, hstep, -⟩ := h.read
  rw [hstatus] at hstep
  rcases last with ⟨it, phase, iterations, evaluations⟩
  cases Machine.ends_of_step hstep with
  | stuck hstuck => exact .inl ⟨_, _, _, rfl, _, Iterate.pass_of_stuck hstuck⟩
  | @degenerate it excluded events iterations evaluations hnone =>
    obtain ⟨-, i, hi⟩ := Machine.exhausted_of_roundOff rfl hstep
    obtain ⟨earlier, head, tried, hhead, hiteration⟩ := hcourse.exists_iteration rfl rfl
    have hheadCourse : program.Course limit buffers earlier head :=
      ⟨L, workspace, hfactor, hroom, hhead⟩
    have hback := hiteration.rolledBack (seated_of_head hheadCourse hiteration.head_phase) rfl
    refine .inr ⟨earlier, head, tried, hheadCourse, hiteration, ?_, ?_,
      h.carries hback.snapshot⟩
    · exact List.ne_nil_of_mem ((hback.excluded i).mp hi)
    · intro k hinactive hviolated
      have hcandidate := Iterate.mostViolated_eq_none.mp hnone k
      have hpoint : it.point = head.iterate.point := congrArg Snapshot.point hback.snapshot
      have hactive : it.isActive = head.iterate.isActive := hback.isActive
      have hslack : it.slack = program.problem.slacks it.point := hback.slack
      rw [Iterate.isCandidate, hactive, hslack, hpoint, hinactive, hviolated] at hcandidate
      simpa [← hback.excluded] using hcandidate

/-- Degenerate candidates leave no trace, whatever the arithmetic: wherever an iteration of a solve
comes to choose a candidate, its state is that of its head again, the slacks are those of the
point, and just the candidates tried so far are excluded. Therefore an answer with a round-off
error, unless a candidate admits no step, has the point, the value, the active set and the
multipliers of the head of its last iteration. -/
theorem rollback_of_solve (program : Program α) (limit : Int) (buffers : Option (Buffers α)) :
    (∀ (slots : Nat)
      (history : List (Admission α program.dimension slots program.inequalityCount))
      (head s : Machine α program.dimension slots program.inequalityCount)
      (tried : List (Fin program.inequalityCount))
      (excluded : Vector Bool program.inequalityCount),
      program.Course limit buffers history head →
        Machine.Iteration program.problem limit.toNat program.tolerance head tried s →
          s.phase = .select excluded →
            Machine.RolledBack program.problem head tried excluded s) ∧
    ∀ (guess : Option (Guess α))
      (answer : Solution α program.dimension program.equalityCount program.inequalityCount),
      (program.solve guess limit buffers).outcome = .ok answer → answer.status = .roundOff →
        ∃ (slots : Nat)
          (history : List (Admission α program.dimension slots program.inequalityCount))
          (last : Machine α program.dimension slots program.inequalityCount),
          program.Concludes limit buffers answer history last ∧
            (last.IsStuck program.problem ∨
              ∃ earlier head tried, program.Course limit buffers earlier head ∧
                program.Exhausts limit answer head tried last) := by
  constructor
  · intro slots history head s tried excluded hcourse hiteration hphase
    exact hiteration.rolledBack (seated_of_head hcourse hiteration.head_phase) hphase
  · intro guess answer hanswer hstatus
    rcases unconstrained_or_concludes hanswer with ⟨L, -, -, rfl⟩ | ⟨slots, history, last, h⟩
    · cases hstatus
    · exact ⟨slots, history, last, h, h.roundOff hstatus⟩

end Program

/-! ## One bound on a line

A solve has one candidate and one way to it, and whether the point can move and whether the bound
can be folded in depends on the scale alone: the first threshold is one for `p⁴ ν²` and the second
one for `p ν`. -/

/-- The nearest point to zero with `ν x ≥ β`. -/
noncomputable def Problem.wall (p ν β : ℝ) : Problem ℝ 1 0 1 :=
  nearest p (.emptyWithCapacity 0) (.singleton ⟨.singleton ν, β⟩)

/-- The problem as a program. -/
noncomputable def Program.wall (p ν β : ℝ) : Program ℝ := ⟨Problem.wall p ν β⟩

/-- The state of a solve in which the bound is tried. -/
structure Outset (p ν β : ℝ) (it : Iterate ℝ 1 1 1) : Prop where
  count : it.workspace.count = 0
  basis : it.workspace.basis.toMatrix = Matrix.diagonal fun _ => p
  scale : it.workspace.pivotScale = 1
  point : it.point.get = 0
  slack : it.slack.get 0 = -β
  isActive : it.isActive.get 0 = false

section Wall

variable {p ν β : ℝ} {it : Iterate ℝ 1 1 1}

namespace Problem

theorem get_normal_wall (p ν β : ℝ) :
    ((wall p ν β).inequalities.get 0).normal.get = fun _ => ν := by
  funext i
  fin_cases i
  rfl

theorem slack_wall (p ν β : ℝ) (x : Vector ℝ 1) :
    ((wall p ν β).slacks x).get 0 = ν * x.get 0 - β := by
  rw [Iterate.get_slacks, Constraint.slack, Vec.dot_eq, get_normal_wall]
  show (∑ i : Fin 1, ν * x.get i) - β = _
  rw [Fin.sum_univ_one]

theorem infeasibilityAt_wall (p ν β : ℝ) (x : Vector ℝ 1) :
    (wall p ν β).infeasibilityAt x = min (ν * x.get 0 - β) 0 := by
  rw [infeasibilityAt, Vec.sum_eq, Fin.sum_univ_one, Vector.get_map, slack_wall,
    Scalar.minimum_real]

/-- The state that a solve of the wall sets out from. -/
noncomputable def wallOrigin (p ν β : ℝ) : Machine ℝ 1 1 1 :=
  origin p (wall p ν β).equalities (wall p ν β).inequalities

/-- The first head of a solve. -/
noncomputable def wallHead (p ν β : ℝ) : Machine ℝ 1 1 1 :=
  ⟨(wallOrigin p ν β).iterate, .head, 0, 1⟩

end Problem

theorem Program.tolerance_wall (hp : 0 < p) :
    (Program.wall p ν β).tolerance = 100 * Scalar.epsilon / p := by
  refine (tolerance_nearest _ _ hp).trans ?_
  norm_num

/-- A point is near enough for the solve to stop if it is short of the bound by a negligible
amount. -/
theorem Program.near_wall (hp : 0 < p) (x : Vector ℝ 1) :
    Scalar.le (Scalar.abs ((Problem.wall p ν β).infeasibilityAt x)) (wall p ν β).tolerance =
      decide (β - ν * x.get 0 ≤ 100 * Scalar.epsilon / p) := by
  have hpositive : 0 ≤ 100 * Scalar.epsilon / p :=
    div_nonneg (mul_nonneg (by norm_num) Scalar.epsilon_pos.le) hp.le
  rw [Problem.infeasibilityAt_wall, tolerance_wall hp, Scalar.le_real, Scalar.abs_real,
    decide_eq_decide, abs_of_nonpos (min_le_right _ _), neg_le, le_min_iff]
  constructor
  · intro h
    linarith [h.1]
  · intro h
    exact ⟨by linarith, by linarith⟩

/-! ### The pass for the bound -/

namespace Outset

variable {c : Constraint ℝ 1} (h : Outset p ν β it) (hnormal : c.normal.get = fun _ => ν)
include h hnormal

theorem get_image : (it.workspace.aim c.normal).image.get = fun _ => p * ν := by
  rw [Workspace.get_image_aim, h.basis, hnormal]
  funext i
  simp [Matrix.mulVec_diagonal]

theorem get_primal : (it.workspace.aim c.normal).primal.get = fun _ => p * (p * ν) := by
  rw [Workspace.get_primal_aim, ← Workspace.get_image_aim, h.get_image hnormal, h.basis]
  funext i
  rw [Matrix.mulVec_diagonal, tailFrom_of_le (h.count.trans_le (Nat.zero_le _))]

theorem curvature_eq : (it.workspace.aim c.normal).curvature c = p * (p * ν) * ν := by
  rw [Workspace.curvature, Vec.dot_eq, h.get_primal hnormal, hnormal]
  simp [dotProduct]

theorem canMove_iff : (it.workspace.aim c.normal).canMove = true ↔
    Scalar.epsilon < p * (p * ν) * (p * (p * ν)) := by
  rw [Workspace.canMove_iff, Vec.dot_eq, h.get_primal hnormal]
  simp [dotProduct]

theorem pivot_le_iff : Scalar.le (Scalar.abs (Vec.extend (it.workspace.aim c.normal).image
    (it.workspace.aim c.normal).count))
      (Scalar.epsilon * (it.workspace.aim c.normal).pivotScale) =
        decide (|p * ν| ≤ Scalar.epsilon) := by
  have hcount : (it.workspace.aim c.normal).count = 0 := h.count
  have hscale : (it.workspace.aim c.normal).pivotScale = 1 := h.scale
  rw [hcount, hscale, Vec.extend_of_lt _ Nat.one_pos, h.get_image hnormal, mul_one,
    Scalar.le_real, Scalar.abs_real]

end Outset

namespace Outset

variable (h : Outset p ν β it)
include h

/-- Where the point can move it goes all the way to the bound, which is folded in unless its
diagonal entry is negligible. -/
theorem reached (hmove : Scalar.epsilon < p * (p * ν) * (p * (p * ν))) :
    ∃ it', it.Reached (Problem.wall p ν β) 0 (decide (Scalar.epsilon < |p * ν|)) it' ∧
      ν * it'.point.get 0 = β ∧ it'.isActive = it.isActive := by
  have hnormal := Problem.get_normal_wall p ν β
  generalize hc : (Problem.wall p ν β).inequalities.get 0 = c at hnormal
  have hcount : (it.workspace.aim c.normal).count = 0 := h.count
  obtain ⟨direction, hdirection⟩ := Workspace.exists_dualDirection_of_empty hcount
  have hplan : (it.workspace.aim c.normal).plan direction 0 (it.slack.get 0)
      ((it.workspace.aim c.normal).curvature c) = .full _ :=
    Workspace.plan_of_free ((h.canMove_iff hnormal).mpr hmove)
      (Workspace.blocking_of_empty hcount direction 0)
  obtain ⟨ws₁, hfold⟩ : ∃ ws₁, ((it.workspace.aim c.normal).shift
      (-it.slack.get 0 / (it.workspace.aim c.normal).curvature c) direction).fold =
        (ws₁, decide (Scalar.epsilon < |p * ν|)) := by
    by_cases hlong : Scalar.epsilon < |p * ν|
    · rw [decide_eq_true hlong]
      exact ⟨_, Workspace.fold_of_last (show (it.workspace.aim c.normal).count + 1 = 1 by omega)
        ((h.pivot_le_iff hnormal).trans (decide_eq_false (not_le.mpr hlong)))⟩
    · rw [decide_eq_false hlong]
      exact Workspace.fold_refused_of_last
        (show (it.workspace.aim c.normal).count + 1 = 1 by omega)
        ((h.pivot_le_iff hnormal).trans (decide_eq_true (not_lt.mp hlong)))
  obtain ⟨it', hreached, -, hpoint, hactive⟩ :=
    Iterate.exists_reached hc.symm rfl hdirection hplan hfold
  refine ⟨it', hreached, ?_, hactive⟩
  -- a direction that is not zero has neither factor zero
  have hne : p * (p * ν) ≠ 0 := fun hzero => by
    rw [hzero, mul_zero] at hmove
    exact absurd Scalar.epsilon_pos (not_lt.mpr hmove.le)
  have hp : p ≠ 0 := left_ne_zero_of_mul hne
  have hν : ν ≠ 0 := right_ne_zero_of_mul (right_ne_zero_of_mul hne)
  rw [hpoint, Vec.get_add, Vec.get_scale, h.point, h.get_primal hnormal, h.slack,
    h.curvature_eq hnormal]
  show ν * (0 + - -β / (p * (p * ν) * ν) * (p * (p * ν))) = β
  field_simp
  ring

end Outset

/-! ### The course -/

variable {limit : Int}

theorem Program.course_wallHead (hp : 0 < p) (limit : Int) :
    (wall p ν β).Course limit none [] (Problem.wallHead p ν β) :=
  course_nearest _ _ hp (Machine.Course.start.next (Machine.step_of_allMet (le_refl 0)))

/-- The outset is not near enough where it is short of the bound. -/
theorem Program.far_wallHead (hp : 0 < p) (hfar : 100 * Scalar.epsilon / p < β) :
    Scalar.le (Scalar.abs ((Problem.wall p ν β).infeasibilityAt
      (Problem.wallHead p ν β).iterate.point)) (wall p ν β).tolerance = false := by
  have hpoint : (Problem.wallHead p ν β).iterate.point.get = 0 := Problem.point_origin _ _ hp
  rw [near_wall hp, hpoint]
  exact decide_eq_false (not_le.mpr (by simpa using hfar))

/-- A solve whose outset is short of the bound begins an iteration and tries the bound. -/
theorem Program.exists_outset (hp : 0 < p) (hfar : 100 * Scalar.epsilon / p < β)
    (hlimit : 1 ≤ limit) :
    ∃ (s : Machine ℝ 1 1 1) (it : Iterate ℝ 1 1 1)
      (fresh : (Vector.replicate 1 false).get (0 : Fin 1) = false),
      (wall p ν β).step limit (Problem.wallHead p ν β) = .next s ∧
      s.phase = .select (Vector.replicate 1 false) ∧
      (wall p ν β).step limit s =
        .next ⟨it, .pass (0 : Fin 1) (Vector.replicate 1 false) fresh, 1, 2⟩ ∧
      Outset p ν β it := by
  let it₀ := (Problem.wallHead p ν β).iterate
  have hβ : 0 < β := lt_of_le_of_lt
    (div_nonneg (mul_nonneg (by norm_num) Scalar.epsilon_pos.le) hp.le) hfar
  have hpoint : it₀.point.get = 0 := Problem.point_origin _ _ hp
  have hbasis : it₀.workspace.basis.toMatrix = Matrix.diagonal fun _ => p :=
    Problem.basis_origin _ _ hp
  have hslack : ((Problem.wall p ν β).slacks it₀.point).get 0 = -β := by
    rw [Problem.slack_wall, hpoint]
    simp
  have hinactive : it₀.isActive.get 0 = false := by
    show (Vector.replicate 1 false).get 0 = false
    simp [Vec.get_eq_getElem]
  have hcandidate : (it₀.evaluate (Problem.wall p ν β)).mostViolated (Vector.replicate 1 false) =
      some 0 := by
    apply Iterate.mostViolated_eq_some
    · refine (Iterate.isCandidate_replicate _ _).mpr ⟨hinactive, ?_⟩
      show ((Problem.wall p ν β).slacks it₀.point).get 0 < 0
      rw [hslack]
      exact neg_neg_of_pos hβ
    · exact fun k _ hk => absurd (Subsingleton.elim k 0) hk
  obtain ⟨begun, ws, events, fresh, hplace, hbegun, hchosen⟩ :=
    Machine.exists_begun (far_wallHead hp hfar) (show 0 < limit.toNat by omega) (Nat.zero_le _)
      hcandidate
  obtain ⟨_, hws⟩ := Workspace.place_ok hplace
  refine ⟨_, _, fresh, hbegun, rfl, hchosen, ?_⟩
  exact ⟨by rw [hws]; rfl, by rw [hws]; exact hbasis, by rw [hws]; rfl, hpoint, hslack,
    hinactive⟩

/-- An answer of a solve of the wall, from where its course stops. -/
theorem Program.exists_answer_wall (hp : 0 < p) (hlimit : 0 ≤ limit)
    {history : List (Admission ℝ 1 1 1)} {last final : Machine ℝ 1 1 1} {status : Status}
    (hcourse : (wall p ν β).Course limit none history last)
    (hstop : (wall p ν β).step limit last = .stop status final) :
    ∃ answer : Solution ℝ 1 0 1, ((wall p ν β).solve none limit none).outcome = .ok answer ∧
      answer.status = status ∧ (wall p ν β).Concludes limit none answer history last :=
  exists_answer_nearest _ _ hp Nat.one_ne_zero hlimit hcourse hstop

/-- Where the point can move but the diagonal entry of the bound is negligible, the bound is undone,
and nothing else is left to try. -/
theorem Program.exists_undone (hp : 0 < p) (hfar : 100 * Scalar.epsilon / p < β)
    (hmove : Scalar.epsilon < p * (p * ν) * (p * (p * ν))) (hshort : |p * ν| ≤ Scalar.epsilon)
    (hlimit : 1 ≤ limit) :
    ∃ (s s' s'' final : Machine ℝ 1 1 1) (excluded : Vector Bool 1)
      (fresh : excluded.get (0 : Fin 1) = false),
      (wall p ν β).step limit (Problem.wallHead p ν β) = .next s ∧
      (wall p ν β).step limit s = .next s' ∧ (wall p ν β).step limit s' = .next s'' ∧
      (wall p ν β).step limit s'' = .stop .roundOff final ∧ s.phase = .select excluded ∧
      s'.phase = .pass 0 excluded fresh ∧ s''.phase = .select (Vec.set excluded 0 true) := by
  obtain ⟨s, it, fresh, hbegun, hphase, hchosen, houtset⟩ := exists_outset hp hfar hlimit
  obtain ⟨it', hreached, -⟩ := houtset.reached hmove
  rw [decide_eq_false (not_lt.mpr hshort)] at hreached
  have hadds : it.Adds (Problem.wall p ν β) (wall p ν β).tolerance 0 :=
    standing_of_course (((course_wallHead hp limit).next hbegun).next hchosen)
  obtain ⟨isActive, hflags⟩ := hadds.exists_flags hreached
  obtain ⟨undone, hundone⟩ : ∃ undone : Iterate ℝ 1 1 1, (wall p ν β).step limit
      ⟨it, .pass (0 : Fin 1) (Vector.replicate 1 false) fresh, 1, 2⟩ = .next
        ⟨undone, .select (Vec.set (Vector.replicate 1 false) (0 : Fin 1) true), 1, 2⟩ := by
    obtain ⟨events, hstep⟩ := Machine.step_of_refused hreached hflags
    exact ⟨_, hstep⟩
  -- whatever state that is, its only inequality is excluded
  have hnone : undone.mostViolated (Vec.set (Vector.replicate 1 false) 0 true) = none := by
    rw [Iterate.mostViolated_eq_none]
    intro i
    obtain rfl : i = 0 := Subsingleton.elim i 0
    simp [Iterate.isCandidate, Vec.get_set]
  have hexcluded : (Vec.set (Vector.replicate 1 false) (0 : Fin 1) true).any id = true := by
    simp [Vec.set]
  obtain ⟨events, hstop⟩ : ∃ events, (wall p ν β).step limit
      ⟨undone, .select (Vec.set (Vector.replicate 1 false) (0 : Fin 1) true), 1, 2⟩ =
        .stop .roundOff ⟨{ undone with events },
          .select (Vec.set (Vector.replicate 1 false) (0 : Fin 1) true), 1, 2⟩ :=
    Machine.stop_of_degenerate hnone hexcluded
  exact ⟨s, _, _, _, _, fresh, hbegun, hchosen, hundone, hstop, hphase, rfl, rfl⟩

/-- Where the point can move and the bound can be folded in, the solve stops at the bound. -/
theorem Program.exists_added (hp : 0 < p) (hfar : 100 * Scalar.epsilon / p < β)
    (hmove : Scalar.epsilon < p * (p * ν) * (p * (p * ν))) (hlong : Scalar.epsilon < |p * ν|)
    (hlimit : 1 ≤ limit) :
    ∃ (s s' final : Machine ℝ 1 1 1) (it : Iterate ℝ 1 1 1)
      (fresh : (Vector.replicate 1 false).get (0 : Fin 1) = false),
      (wall p ν β).step limit (Problem.wallHead p ν β) = .next s ∧
      s.phase = .select (Vector.replicate 1 false) ∧
      (wall p ν β).step limit s =
        .next ⟨it, .pass (0 : Fin 1) (Vector.replicate 1 false) fresh, 1, 2⟩ ∧
      Outset p ν β it ∧
      (wall p ν β).step limit ⟨it, .pass (0 : Fin 1) (Vector.replicate 1 false) fresh, 1, 2⟩ =
        .next s' ∧
      s'.phase = .head ∧ ν * s'.iterate.point.get 0 = β ∧
      (wall p ν β).step limit s' = .stop .proper final := by
  obtain ⟨s, it, fresh, hbegun, hphase, hchosen, houtset⟩ := exists_outset hp hfar hlimit
  obtain ⟨it', hreached, hpoint, -⟩ := houtset.reached hmove
  rw [decide_eq_true hlong] at hreached
  obtain ⟨events, hadded⟩ : ∃ events, (wall p ν β).step limit
      ⟨it, .pass (0 : Fin 1) (Vector.replicate 1 false) fresh, 1, 2⟩ = .next
        ⟨{ it' with isActive := Vec.set it'.isActive (0 : Fin 1) true, events }, .head, 1, 2⟩ :=
    Machine.step_of_reached hreached
  have hnear : Scalar.le (Scalar.abs ((Problem.wall p ν β).infeasibilityAt it'.point))
      (wall p ν β).tolerance = true := by
    rw [near_wall hp, hpoint, sub_self]
    exact decide_eq_true (div_nonneg (mul_nonneg (by norm_num) Scalar.epsilon_pos.le) hp.le)
  exact ⟨s, _, _, it, fresh, hbegun, hphase, hchosen, houtset, hadded, rfl, hpoint,
    Machine.stop_of_near hnear⟩

/-- There the answer is the point at the bound. -/
theorem Program.solve_wall_added (hp : 0 < p) (hfar : 100 * Scalar.epsilon / p < β)
    (hmove : Scalar.epsilon < p * (p * ν) * (p * (p * ν))) (hlong : Scalar.epsilon < |p * ν|)
    (hlimit : 1 ≤ limit) :
    ∃ answer : Solution ℝ 1 0 1, ((wall p ν β).solve none limit none).outcome = .ok answer ∧
      answer.status = .proper ∧ ν * answer.point.get 0 = β := by
  obtain ⟨s, s', final, it, fresh, hbegun, -, hchosen, -, hadded, -, hpoint, hstop⟩ :=
    exists_added hp hfar hmove hlong hlimit
  have hcourse := (((course_wallHead hp limit).next hbegun).next hchosen).next hadded
  obtain ⟨answer, hanswer, hstatus, hconcludes⟩ :=
    exists_answer_wall hp (by omega) hcourse hstop
  refine ⟨answer, hanswer, hstatus, ?_⟩
  rw [hconcludes.point_eq]
  exact hpoint

end Wall

/-- The outset is short of one. -/
theorem Scalar.far_one : 100 * Scalar.epsilon / 1 < (1 : ℝ) := by
  rw [Scalar.epsilon_real]
  norm_num

/-- The outset is short of one, and with a normal this short the point can move, though the bound
cannot be folded in. -/
theorem Scalar.short_normal : 100 * Scalar.epsilon / 10 ^ 20 < (1 : ℝ) ∧
    (Scalar.epsilon : ℝ) <
      10 ^ 20 * (10 ^ 20 * (1 / 10 ^ 40)) * (10 ^ 20 * (10 ^ 20 * (1 / 10 ^ 40))) ∧
    |(10 ^ 20 * (1 / 10 ^ 40) : ℝ)| ≤ Scalar.epsilon := by
  rw [Scalar.epsilon_real, abs_of_pos (by positivity)]
  refine ⟨?_, ?_, ?_⟩ <;> norm_num

/-- The nearest point to zero with `x ≥ 1` is found in one iteration. -/
theorem Program.solve_wall_within {limit : Int} (hlimit : 1 ≤ limit) : ∃ answer : Solution ℝ 1 0 1,
    ((wall 1 1 1).solve none limit none).outcome = .ok answer ∧ answer.status = .proper ∧
      answer.point.get 0 = 1 := by
  have hmove : Scalar.epsilon < (1 * (1 * 1) * (1 * (1 * 1)) : ℝ) := by
    simpa using Scalar.epsilon_lt_one
  have hlong : Scalar.epsilon < |(1 * 1 : ℝ)| := by simpa using Scalar.epsilon_lt_one
  obtain ⟨answer, hanswer, hstatus, hpoint⟩ :=
    solve_wall_added one_pos Scalar.far_one hmove hlong hlimit
  exact ⟨answer, hanswer, hstatus, by simpa using hpoint⟩

theorem Program.solve_wall_one : ∃ answer : Solution ℝ 1 0 1,
    ((wall 1 1 1).solve none 100 none).outcome = .ok answer ∧ answer.status = .proper ∧
      answer.point.get 0 = 1 :=
  solve_wall_within (by decide)

namespace Program

/-- At a wall with a short normal the only candidate is degenerate: the solve comes back to the
choice with the head's state, and its answer is the head's. -/
theorem rollback_of_solve_wall :
    let program := wall (10 ^ 20) (1 / 10 ^ 40) 1
    ∃ (s : Machine ℝ 1 1 1) (excluded : Vector Bool 1) (answer : Solution ℝ 1 0 1),
      Machine.RolledBack program.problem (Problem.wallHead (10 ^ 20) (1 / 10 ^ 40) 1)
        [(0 : Fin 1)] excluded s ∧
      (program.solve none 100 none).outcome = .ok answer ∧ answer.status = .roundOff ∧
      answer.Carries (Problem.wallHead (10 ^ 20) (1 / 10 ^ 40) 1).iterate := by
  intro program
  have hp : (0 : ℝ) < 10 ^ 20 := by positivity
  obtain ⟨hfar, hmove, hshort⟩ := Scalar.short_normal
  have hlimit : (1 : Int) ≤ 100 := by decide
  obtain ⟨s₁, s₂, s₃, final, excluded, fresh, hbegun, hchosen, hundone, hstop, hphase₁, hphase₂,
    hphase₃⟩ := exists_undone hp hfar hmove hshort hlimit
  have hiteration : Machine.Iteration program.problem (100 : Int).toNat program.tolerance
      (Problem.wallHead (10 ^ 20) (1 / 10 ^ 40) 1) [(0 : Fin 1)] s₃ := by
    have h := ((Machine.Iteration.begun rfl hbegun).next hchosen
      fun h => by cases hphase₂.symm.trans h).next hundone fun h => by cases hphase₃.symm.trans h
    simpa only [Machine.takenUp, hphase₁, hphase₂, hphase₃, List.append_nil, List.nil_append]
      using h
  have hhead := course_wallHead (ν := 1 / 10 ^ 40) (β := 1) hp 100
  have hback := (rollback_of_solve program 100 none).1 _ _ _ s₃ [(0 : Fin 1)] _ hhead hiteration
    hphase₃
  obtain ⟨answer, hanswer, hstatus, hconcludes⟩ := exists_answer_wall hp (by decide)
    (((hhead.next hbegun).next hchosen).next hundone) hstop
  exact ⟨s₃, _, answer, hback, hanswer, hstatus, hconcludes.carries hback.snapshot⟩

end Program

end ActiveSet

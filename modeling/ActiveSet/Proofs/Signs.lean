import ActiveSet.Proofs.Tightness
/-
  The signs of the dual values

  No dual value of an inequality ever turns negative, whatever the rotations
  skipped: a step is never longer than the least ratio that `blocking` finds,
  and never negative, since the candidate is violated as long as it is being
  added (`forward_of_plan`). The constraint that blocks is the one that is
  dropped, and its dual value is exactly zero by then (`dual_shift_blocking`).
-/

open Matrix

namespace ActiveSet

variable {n e m slots : Nat}

/-- How far a planned move goes, if anything moves at all. -/
def Move.length? {α : Type} : Move α → Option α
  | .stay => none
  | .dual step _ | .full step | .partway step _ => some step

namespace Workspace

variable {ws : Workspace ℝ n slots} {direction : Vector ℝ ws.count} {first : Nat} {step : ℝ}

/-- An admissible step leaves no dual value negative. -/
theorem dual_shift_nonneg (hadmits : ws.Admits direction first step) (hstep : 0 ≤ step)
    (hcount : ws.count ≤ slots) (hduals : ∀ k, first ≤ k → k ≤ ws.count → 0 ≤ ws.dual k) {k : Nat}
    (hfirst : first ≤ k) (hk : k ≤ ws.count) : 0 ≤ (ws.shift step direction).dual k := by
  have hold := hduals k hfirst hk
  rw [dual_shift (hk.trans hcount)]
  by_cases hlt : k < ws.count
  · rw [if_pos hlt]
    rcases lt_or_ge 0 (Vec.extend direction k) with hr | hr
    · have hle := hadmits k hfirst hlt hr
      rw [le_div_iff₀ hr] at hle
      linarith
    · have hrise : step * Vec.extend direction k ≤ 0 := mul_nonpos_of_nonneg_of_nonpos hstep hr
      linarith
  · obtain rfl : k = ws.count := by omega
    rw [if_neg hlt, if_pos rfl]
    linarith

/-- The blocking ratio is an admissible step. -/
theorem admits_of_blocking {l : Label} (h : ws.blocking direction first = some (step, l)) :
    ws.Admits direction first step :=
  fun _ hfirst hk hr => blocking_le h hfirst hk hr

theorem step_nonneg_of_blocking {l : Label} (h : ws.blocking direction first = some (step, l))
    (hduals : ∀ k, first ≤ k → k ≤ ws.count → 0 ≤ ws.dual k) : 0 ≤ step := by
  obtain ⟨k, hfirst, hk⟩ := blocks_of_blocking h
  have hfalls : 0 < Vec.extend direction k := by simpa using hk.falls
  rw [hk.ratio_eq]
  exact div_nonneg (hduals k hfirst hk.lt_count.le) hfalls.le

/-- A planned move towards a violated constraint is forward, and admissible. -/
theorem plan_forward {slack curvature : ℝ}
    (hplan : (ws.plan direction first slack curvature).length? = some step) (hslack : slack < 0)
    (hcurvature : ws.canMove = true → 0 < curvature)
    (hduals : ∀ k, first ≤ k → k ≤ ws.count → 0 ≤ ws.dual k) :
    0 ≤ step ∧ ws.Admits direction first step := by
  have hmoving {l : Label} (hmove : ws.plan direction first slack curvature = .full step ∨
      ws.plan direction first slack curvature = .partway step l) :
      0 ≤ step ∧ ws.Admits direction first step := by
    obtain ⟨hcan, hadmits, -, hstep⟩ := plan_move hmove
    refine ⟨?_, hadmits⟩
    rcases hstep with hfull | ⟨l', hblock⟩
    -- the whole way is forward, since the constraint is violated
    · rw [hfull]
      exact div_nonneg (neg_nonneg.mpr hslack.le) (hcurvature hcan).le
    · exact step_nonneg_of_blocking hblock hduals
  cases hmove : ws.plan direction first slack curvature with
  | stay =>
    rw [hmove] at hplan
    cases hplan
  | dual t l =>
    rw [hmove] at hplan
    cases hplan
    obtain ⟨-, hblock⟩ := plan_eq_dual_iff.mp hmove
    exact ⟨step_nonneg_of_blocking hblock hduals, admits_of_blocking hblock⟩
  | full t =>
    rw [hmove] at hplan
    cases hplan
    exact hmoving (l := .inequality 0) (.inl hmove)
  | partway t l =>
    rw [hmove] at hplan
    cases hplan
    exact hmoving (.inr hmove)

/-- The dual value of the blocking constraint is zero after the step. -/
theorem dual_shift_blocking {l : Label} {k : Nat} (hcount : ws.count ≤ slots)
    (hk : ws.Blocks direction k step l) : (ws.shift step direction).dual k = 0 := by
  have hfalls : 0 < Vec.extend direction k := by simpa using hk.falls
  rw [dual_shift (hk.lt_count.le.trans hcount), if_pos hk.lt_count, hk.ratio_eq,
    div_mul_cancel₀ _ hfalls.ne', sub_self]

end Workspace

namespace Iterate

variable {P : Problem ℝ n e m} {tolerance : ℝ} {candidate : Fin m} {it it' : Iterate ℝ n slots m}

/-- A pass that drops the constraint in slot `p`, which is the one that blocks. -/
structure DropsAt (P : Problem ℝ n e m) (candidate : Fin m) (it it' : Iterate ℝ n slots m)
    (c : Constraint ℝ n) (direction : Vector ℝ (it.workspace.aim c.normal).count) (step : ℝ)
    (p : Nat) : Prop where
  constraint : c = P.inequalities.get candidate
  direction_eq : (it.workspace.aim c.normal).dualDirection = .ok direction
  behind : e ≤ p
  blocking : (it.workspace.aim c.normal).blocking direction e =
    some (step, it.workspace.label p)
  blocks : (it.workspace.aim c.normal).Blocks direction p step (it.workspace.label p)
  workspace_eq : it'.workspace = ((it.workspace.aim c.normal).shift step direction).eraseAt p
  moves :
    ((it.workspace.aim c.normal).canMove = false ∧ it'.point = it.point ∧ it'.value = it.value ∧
      it'.slack = it.slack) ∨
    ((it.workspace.aim c.normal).canMove = true ∧
      step < -it.slack.get candidate / (it.workspace.aim c.normal).curvature c ∧
      it'.point = Vec.add it.point (Vec.scale step (it.workspace.aim c.normal).primal) ∧
      it'.value = it.value + step * (it.workspace.aim c.normal).curvature c *
        (Scalar.half * step + it.workspace.dual it.workspace.count) ∧
      it'.slack.get candidate = c.slack it'.point)

/-- The slot that is emptied is the one whose ratio stopped the step, since no two slots hold the
same name. -/
theorem Dropped.dropsAt (h : it.Dropped P candidate it') (hadds : it.Adds P tolerance candidate) :
    ∃ c direction step p, it.DropsAt P candidate it' c direction step p := by
  have hslot {c : Constraint ℝ n} {direction : Vector ℝ (it.workspace.aim c.normal).count}
      {step : ℝ} {label : Label} {i : Fin m} {p : Nat}
      (hplan : (it.workspace.aim c.normal).plan direction e (it.slack.get candidate)
          ((it.workspace.aim c.normal).curvature c) = .dual step label ∨
        (it.workspace.aim c.normal).plan direction e (it.slack.get candidate)
          ((it.workspace.aim c.normal).curvature c) = .partway step label)
      (hlabel : label.position? m = some i)
      (hp : ((it.workspace.aim c.normal).shift step direction).position? label e = some p)
      (hblock : (it.workspace.aim c.normal).blocking direction e = some (step, label)) :
      e ≤ p ∧ label = it.workspace.label p ∧
        (it.workspace.aim c.normal).Blocks direction p step (it.workspace.label p) := by
    obtain ⟨hep, hpc, hpi, hli⟩ := hadds.dropped_slot rfl hplan hlabel hp
    obtain ⟨k, hek, hk⟩ := Workspace.blocks_of_blocking hblock
    -- the slot that blocks and the slot that is emptied hold the same name
    have hkp : k = p := by
      apply hadds.seating.distinct k hk.lt_count p hpc
      have hkl : it.workspace.label k = label := hk.label_eq
      rw [hkl, hli, hpi]
    subst hkp
    have hname : label = it.workspace.label k := hli.trans hpi.symm
    exact ⟨hep, hname, hname ▸ hk⟩
  cases h with
  | @dual c ws direction step label i p hc hws hdirection hplan hlabel hp hroom =>
    subst hws
    obtain ⟨hstay, hblock⟩ := Workspace.plan_eq_dual_iff.mp hplan
    obtain ⟨hep, hname, hblocks⟩ := hslot (.inl hplan) hlabel hp hblock
    rw [hname] at hblock
    exact ⟨c, direction, step, p, hc, hdirection, hep, hblock, hblocks, rfl,
      .inl ⟨hstay, rfl, rfl, rfl⟩⟩
  | @partway c ws direction step label i p point hc hws hdirection hplan hlabel hp hroom hpoint =>
    subst hws hpoint
    obtain ⟨hblock, hlt⟩ := Workspace.plan_partway hplan
    obtain ⟨hmove, -, -, -⟩ := Workspace.plan_move (.inr hplan)
    obtain ⟨hep, hname, hblocks⟩ := hslot (.inr hplan) hlabel hp hblock
    rw [hname] at hblock
    refine ⟨c, direction, step, p, hc, hdirection, hep, hblock, hblocks, rfl,
      .inr ⟨hmove, hlt, rfl, rfl, ?_⟩⟩
    show (Vec.set it.slack candidate _).get candidate = _
    rw [Vec.get_set, if_pos rfl]

end Iterate

/-- The dual values of the active inequalities of a snapshot. -/
def Snapshot.DualFeasible (e : Nat) (t : Snapshot ℝ n slots) : Prop :=
  ∀ k, e ≤ k → k < t.count → 0 ≤ t.dual k

/-- The dual values while a candidate is being added, its own included, and that it is violated. -/
structure Iterate.DualFeasible (e : Nat) (candidate : Fin m) (it : Iterate ℝ n slots m) : Prop where
  nonneg : ∀ k, e ≤ k → k ≤ it.workspace.count → 0 ≤ it.workspace.dual k
  violated : it.slack.get candidate < 0

/-! ## Along the course of a solve -/

namespace Machine

variable {P : Problem ℝ n e m} {limit : Nat} {tolerance : ℝ} {candidate : Fin m}
  {it it' : Iterate ℝ n slots m} {history : List (Admission ℝ n slots m)}

theorem dualFeasible_of_dropped (hadds : it.Adds P tolerance candidate)
    (hcolumns : Columns P history it.snapshot) (h : it.DualFeasible e candidate)
    (hdropped : it.Dropped P candidate it') : it'.DualFeasible e candidate := by
  obtain ⟨c, direction, step, p, hdrop⟩ := hdropped.dropsAt hadds
  have hstep : 0 ≤ step := Workspace.step_nonneg_of_blocking hdrop.blocking h.nonneg
  have hpc : p < it.workspace.count := hdrop.blocks.lt_count
  have hroom : ((it.workspace.aim c.normal).shift step direction).count ≤ slots := hadds.count_le
  constructor
  · intro k hek hk
    rw [hdrop.workspace_eq] at hk ⊢
    change k ≤ it.workspace.count - 1 at hk
    have hskip := skip_le p k
    have hbehind : e ≤ skip p k := by
      unfold skip
      split <;> omega
    rw [Workspace.dual_eraseAt hroom (show k < it.workspace.count by omega)]
    exact Workspace.dual_shift_nonneg (Workspace.admits_of_blocking hdrop.blocking) hstep
      hadds.count_le h.nonneg hbehind (show skip p k ≤ it.workspace.count by omega)
  · rcases hdrop.moves with ⟨-, -, -, hslack⟩ | ⟨hmove, hlt, hpoint, -, hslack⟩
    · rw [hslack]
      exact h.violated
    · -- the step ends before the candidate is tight
      have hcurvature : 0 < (it.workspace.aim c.normal).curvature c :=
        hcolumns.factored.curvature_pos_of_canMove hmove
      rw [lt_div_iff₀ hcurvature, hadds.measured, ← hdrop.constraint] at hlt
      rw [hslack, hpoint, Constraint.slack_move, dotProduct_comm, ← Vec.dot_eq]
      have hrise : step * Vec.dot (it.workspace.aim c.normal).primal c.normal <
          -c.slack it.point := hlt
      linarith

/-- From a violated candidate no step is backwards. -/
theorem forward_of_plan (hcolumns : Columns P history it.snapshot)
    (h : it.DualFeasible e candidate) {c : Constraint ℝ n}
    {direction : Vector ℝ (it.workspace.aim c.normal).count} {step : ℝ}
    (hplan : ((it.workspace.aim c.normal).plan direction e (it.slack.get candidate)
      ((it.workspace.aim c.normal).curvature c)).length? = some step) :
    0 ≤ step ∧ (it.workspace.aim c.normal).Admits direction e step :=
  Workspace.plan_forward hplan h.violated
    (fun hmove => hcolumns.factored.curvature_pos_of_canMove hmove) h.nonneg

theorem dualFeasible_of_added (hadds : it.Adds P tolerance candidate)
    (hcolumns : Columns P history it.snapshot) (h : it.DualFeasible e candidate)
    (hreached : it.Reached P candidate true it') : it'.snapshot.DualFeasible e := by
  cases hreached with
  | @intro c ws ws₁ direction step events hc hws hdirection hplan hfold =>
    subst hws
    obtain ⟨hnonneg, hadmits⟩ := forward_of_plan hcolumns h (congrArg Move.length? hplan)
    intro k hek hk
    change k < ws₁.count at hk
    rw [Workspace.count_fold hfold] at hk
    change k < it.workspace.count + 1 at hk
    show 0 ≤ ws₁.dual k
    rw [Workspace.dual_fold hfold]
    exact Workspace.dual_shift_nonneg hadmits hnonneg hadds.count_le h.nonneg hek
      (Nat.le_of_lt_succ hk)

theorem upkeep_dualFeasible {start : Machine ℝ n slots m} (hphase : start.phase = .equality 0)
    (hstanding : Standing P tolerance start) (hcolumns : Columns P [] start.iterate.snapshot) :
    Upkeep P limit tolerance start (fun _ t => t.DualFeasible e)
      fun _ candidate it => it.DualFeasible e candidate where
  origin := by
    intro k _ hk
    have hnone := hstanding.count_eq_zero hphase
    change k < start.iterate.workspace.count at hk
    omega
  met {history s s' i} hcourse hs hequality _ hmet := by
    -- only equalities have slots so far
    rw [Standing, hequality] at hs
    obtain ⟨-, hcount, hseated⟩ := hs
    obtain ⟨hcount', -⟩ := hmet.seated hcount hseated
    intro k hek hk
    change k < s'.iterate.workspace.count at hk
    have := i.isLt
    omega
  chosen {history s excluded candidate ws events} _ hrests h hcandidate hplace := by
    have hchosen := Iterate.isCandidate_of_mostViolated hcandidate
    simp only [Iterate.isCandidate, Scalar.lt_real, Bool.and_eq_true, decide_eq_true_eq] at hchosen
    refine ⟨?_, hchosen.2⟩
    intro k hek hk
    show 0 ≤ ws.dual k
    rw [Workspace.dual_place hplace]
    split
    · exact le_refl _
    · next hne =>
      obtain ⟨_, hws⟩ := Workspace.place_ok hplace
      change k ≤ ws.count at hk
      have hcount : ws.count = s.iterate.workspace.count := by rw [hws]
      exact h k hek (show k < s.iterate.workspace.count by omega)
  dropped {history s it' candidate} hcourse _ hadds h hdropped :=
    dualFeasible_of_dropped hadds (columns_of_course hphase hstanding hcolumns hcourse) h hdropped
  added {history s s' it' candidate isActive} hcourse _ hadds h hreached hit := by
    have hnow := columns_of_course hphase hstanding hcolumns hcourse
    have hadded : it'.snapshot.DualFeasible e := dualFeasible_of_added hadds hnow h hreached
    rw [hit]
    exact hadded

end Machine

end ActiveSet

import ActiveSet.Proofs.Lockstep
/-
  The answer in other units

  Two solves that stay in step end in alike states, and the answers read off
  alike states are the same up to the units (`ofMachine_alike`): the point, the
  active set and the counters agree, and the value and the multipliers change
  as dual values do (`Solution.regauged`). A solve starts from what its problem
  and the factor of its quadratic term give, whatever is in its workspace, so
  two problems with the same constraints start alike once these agree
  (`Restates`), and have the same outcome up to the units if they stay in step
  (`outcome_of_restates`).
-/

namespace ActiveSet

variable {α : Type} [Scalar α] {n e m slots slots' : Nat} {g : Gauge α}

/-! ## The multipliers -/

/-- The members are the same up to the units of the dual values. -/
theorem Workspace.Alike.members_eq {ws : Workspace α n slots} {ws' : Workspace α n slots'}
    (h : Alike g ws ws') (hroom : ws.count ≤ slots + 1) (hroom' : ws.count ≤ slots' + 1) :
    ws'.members = ws.members.map fun member => (member.1, g.dual member.2) := by
  rw [Workspace.members_eq hroom, Workspace.members_eq (h.count.symm ▸ hroom'), h.count,
    List.map_map]
  exact List.map_congr_left fun k _ => Prod.ext (h.label k) (h.dual k)

namespace Multipliers

/-- The multipliers in the units of another gauge. -/
def regauged (g : Gauge α) (l : Multipliers α e m) : Multipliers α e m :=
  ⟨l.equality.map g.dual, l.inequality.map g.dual⟩

theorem record_regauged (l : Multipliers α e m) (member : Label × α) :
    (l.regauged g).record (member.1, g.dual member.2) = (l.record member).map (regauged g) := by
  obtain ⟨name, u⟩ := member
  cases name with
  | equality i =>
    simp only [record, regauged, Vec.set_map]
    split <;> rfl
  | inequality i =>
    simp only [record, regauged, Vec.set_map]
    split <;> rfl

theorem records_regauged (members : List (Label × α)) (l : Multipliers α e m) :
    (members.map fun member => (member.1, g.dual member.2)).foldlM record (l.regauged g) =
      (members.foldlM record l).map (regauged g) := by
  induction members generalizing l with
  | nil => rfl
  | cons member members ih =>
    rw [List.map_cons, List.foldlM_cons, List.foldlM_cons, record_regauged]
    cases l.record member with
    | error fault => rfl
    | ok l₁ => exact ih l₁

theorem ofMembers_regauged (members : List (Label × α)) :
    (ofMembers (members.map fun member => (member.1, g.dual member.2)) :
      Except Fault (Multipliers α e m)) = (ofMembers members).map (regauged g) := by
  have hnone : (none : Multipliers α e m).regauged g = none := by
    rw [regauged, none, Vec.zero_map _ g.dual_zero, Vec.zero_map _ g.dual_zero]
  rw [ofMembers, ← hnone]
  exact records_regauged members none

end Multipliers

/-! ## The answer -/

/-- The answer in the units of another gauge. -/
def Solution.regauged (g : Gauge α) (answer : Solution α n e m) : Solution α n e m :=
  { answer with
    value := g.dual answer.value
    equalityMultipliers := answer.equalityMultipliers.map g.dual
    inequalityMultipliers := answer.inequalityMultipliers.map g.dual }

variable {P P' : Problem α n e m}

theorem Problem.residual_congr (hE : P'.equalities = P.equalities)
    (hI : P'.inequalities = P.inequalities) (x : Vector α n) : P'.residual x = P.residual x := by
  rw [residual, residual, defects, defects, shortfalls, shortfalls, hE, hI]

/-- The answers read off alike states. -/
theorem Solution.ofMachine_alike {s : Machine α n slots m} {s' : Machine α n slots' m}
    (h : s.iterate.Alike g s'.iterate) (hiterations : s'.iterations = s.iterations)
    (hevaluations : s'.evaluations = s.evaluations) (hE : P'.equalities = P.equalities)
    (hI : P'.inequalities = P.inequalities) (hroom : s.iterate.workspace.count ≤ slots + 1)
    (hroom' : s.iterate.workspace.count ≤ slots' + 1) (status : Status) :
    ofMachine P' status s' = (ofMachine P status s).map (regauged g) := by
  have hmembers := h.workspace.members_eq hroom hroom'
  have hnames := h.workspace.labelsFrom_eq hroom hroom' e
  unfold ofMachine
  simp only [hmembers, Multipliers.ofMembers_regauged, hnames, h.point, h.value, hiterations,
    hevaluations, Problem.residual_congr hE hI]
  cases (Multipliers.ofMembers s.iterate.workspace.members : Except Fault (Multipliers α e m)) with
  | error fault => rfl
  | ok l => rfl

/-! ## The solve -/

/-- Problems with the same constraints and the same minimum without them, whose values and factors
differ by the units only. -/
structure Problem.Restates (g : Gauge α) (P P' : Problem α n e m) (L L' : Mat α n n) : Prop where
  equalities : P'.equalities = P.equalities
  inequalities : P'.inequalities = P.inequalities
  pivots : Triangular.hasZeroPivot L' = Triangular.hasZeroPivot L
  inverse : Triangular.inverseLower L' = (Triangular.inverseLower L).map g.image
  point : P'.unconstrainedPoint L' = P.unconstrainedPoint L
  value : P'.unconstrainedValue (P.unconstrainedPoint L) =
    g.dual (P.unconstrainedValue (P.unconstrainedPoint L))

variable {L L' : Mat α n n}

/-- The names and the dual values of a workspace in which nothing is active. -/
theorem Workspace.label_reset (ws : Workspace α n slots) (k : Nat) :
    ws.reset.label k = .inequality 0 := by
  simp [label, reset, Vec.get_eq_getElem]

theorem Workspace.dual_reset (ws : Workspace α n slots) (k : Nat) : ws.reset.dual k = 0 := by
  simp [dual, reset, Vec.extend, Vec.zero, Vec.get_eq_getElem]

/-- Solves set out alike, whatever their workspaces hold. -/
theorem Problem.start_alike (h : Restates g P P' L L') (ws : Workspace α n slots)
    (ws' : Workspace α n slots') :
    (P.start (Triangular.inverseLower L) (P.unconstrainedPoint L) ws).Alike g
      (P'.start (Triangular.inverseLower L') (P'.unconstrainedPoint L') ws') := by
  have htriangle : Mat.zero n n = (Mat.zero n n).map g.image :=
    (Mat.zero_map _ g.image_zero).symm
  have hbasis : (Triangular.inverseLower L').transpose =
      (Triangular.inverseLower L).transpose.map g.image := by rw [h.inverse, Mat.transpose_map]
  refine ⟨⟨⟨⟨rfl, g.scales_one, hbasis, htriangle⟩, fun k => ?_, fun k => ?_⟩, h.point, ?_, rfl⟩,
    rfl, rfl, rfl, fun hwithin => by cases hwithin⟩
  · exact (ws'.label_reset k).trans (ws.label_reset k).symm
  · exact (ws'.dual_reset k).trans ((congrArg g.dual (ws.dual_reset k)).trans g.dual_zero).symm
  · show P'.unconstrainedValue (P'.unconstrainedPoint L') = _
    rw [h.point]
    exact h.value

/-- Solves that stay in step have the same outcome, up to the units. -/
theorem Problem.outcome_of_restates (h : Restates g P P' L L') {limit : Nat}
    (ws : Workspace α n slots) (ws' : Workspace α n slots') (hroom : e + m ≤ slots)
    (hroom' : e + m ≤ slots')
    (hsteady : ∀ history history' s s',
      Machine.Course P limit (P.tolerance (Triangular.inverseLower L).trace)
        (P.start (Triangular.inverseLower L) (P.unconstrainedPoint L) ws) history s →
      Machine.Course P' limit (P'.tolerance (Triangular.inverseLower L').trace)
        (P'.start (Triangular.inverseLower L') (P'.unconstrainedPoint L') ws') history' s' →
      s.Alike g s' → s.Steady g P (P.tolerance (Triangular.inverseLower L).trace)
        (P'.tolerance (Triangular.inverseLower L').trace)) :
    (P'.solveFrom L' limit ws').outcome =
      (P.solveFrom L limit ws).outcome.map (Solution.regauged g) := by
  unfold solveFrom
  rw [h.pivots]
  split
  · rfl
  · have hstart := start_alike h ws ws'
    rcases Machine.run_alike hstart h.equalities h.inequalities
      (Machine.standing_start P _ _ _ ws) hroom hroom' hsteady with
      ⟨status, s, s', hrun, hrun', halike, hiterations, hevaluations, hcount⟩ |
      ⟨fault, s, s', hrun, hrun'⟩
    · simp only [hrun, hrun']
      exact Solution.ofMachine_alike halike hiterations hevaluations h.equalities h.inequalities
        (by omega) (by omega) status
    · simp only [hrun, hrun']
      rfl

end ActiveSet

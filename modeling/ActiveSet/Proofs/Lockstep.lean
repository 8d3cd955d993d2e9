import ActiveSet.Proofs.Alike
import ActiveSet.Proofs.Bookkeeping
/-
  Two solves in step

  Two states of two solves are alike in a gauge if their workspaces are, and
  the points, the flags and the counters are the same. As long as the
  comparisons with a fixed threshold come out alike (`Machine.Steady`), both
  solves make the same transition and are alike again (`step_alike`): the same
  constraint is tried, dropped, added or undone, and a solve that ends or fails
  does so in both. By induction over the run both come to the same end
  (`run_alike`).

  The slacks and the saved copy are compared only from the head of an iteration
  on, where a solve writes them. What they held before is one of the things
  that two alike states may differ in.
-/

namespace ActiveSet

variable {α : Type} [Scalar α] {n e m slots slots' : Nat}

/-! ## Alike states -/

/-- Iterates of the same state in the units of two gauges. -/
structure Iterate.Alike (g : Gauge α) (it : Iterate α n slots m) (it' : Iterate α n slots' m) :
    Prop where
  workspace : it.workspace.Alike g it'.workspace
  point : it'.point = it.point
  value : it'.value = g.dual it.value
  isActive : it'.isActive = it.isActive

/-- Alike iterates within an iteration. -/
structure Iterate.AlikeWithin (g : Gauge α) (it : Iterate α n slots m)
    (it' : Iterate α n slots' m) : Prop extends Alike g it it' where
  saved : it.workspace.saved.Alike g it'.workspace.saved
  slack : it'.slack = it.slack

/-- Results of a pass that lead on alike. Of a degenerate candidate only the saved copy is
needed. -/
inductive PassResult.Alike (g : Gauge α) : PassResult α n slots m → PassResult α n slots' m → Prop
  | again {it : Iterate α n slots m} {it' : Iterate α n slots' m} (h : it.AlikeWithin g it') :
    Alike g (.again it) (.again it')
  | settled {outcome : PivotOutcome} {it : Iterate α n slots m} {it' : Iterate α n slots' m}
    (h : it.AlikeWithin g it') : Alike g (.settled outcome it) (.settled outcome it')
  | degenerate {it : Iterate α n slots m} {it' : Iterate α n slots' m}
    (h : it.workspace.saved.Alike g it'.workspace.saved) :
    Alike g (.settled .degenerate it) (.settled .degenerate it')
  | failed {fault : Fault} {it : Iterate α n slots m} {it' : Iterate α n slots' m} :
    Alike g (.failed fault it) (.failed fault it')

namespace Machine

/-- States at the same place of two solves, in the units of two gauges. -/
structure Alike (g : Gauge α) (s : Machine α n slots m) (s' : Machine α n slots' m) : Prop where
  iterate : s.iterate.Alike g s'.iterate
  phase : s'.phase = s.phase
  iterations : s'.iterations = s.iterations
  evaluations : s'.evaluations = s.evaluations
  within : s.phase.isIterating = true → s.iterate.AlikeWithin g s'.iterate

/-- Whether the comparisons that a state leads to come out the same in another gauge, with the other
tolerance. -/
structure Steady (g : Gauge α) (P : Problem α n e m) (tolerance tolerance' : α)
    (s : Machine α n slots m) : Prop where
  head : s.phase = .head →
    Scalar.le (Scalar.abs (P.infeasibilityAt s.iterate.point)) tolerance' =
      Scalar.le (Scalar.abs (P.infeasibilityAt s.iterate.point)) tolerance
  inHand : ∀ c, s.inHand P = some c → (s.iterate.workspace.aim c.normal).Steady g
  step : ∀ candidate excluded fresh, s.phase = .pass candidate excluded fresh →
    ∀ c, c = P.inequalities.get candidate →
      (s.iterate.workspace.aim c.normal).SteadyStep g e (s.iterate.slack.get candidate)
        ((s.iterate.workspace.aim c.normal).curvature c)
  deletions : ∀ candidate excluded fresh, s.phase = .pass candidate excluded fresh →
    ∀ p < s.iterate.workspace.count, g.TurnsAlike (s.iterate.workspace.erasePairs p)

end Machine

/-- Transitions that lead on alike. -/
inductive Transition.Alike (g : Gauge α) :
    Transition α n slots m → Transition α n slots' m → Prop
  | next {s : Machine α n slots m} {s' : Machine α n slots' m} (h : s.Alike g s') :
    Alike g (.next s) (.next s')
  | stop {status : Status} {s : Machine α n slots m} {s' : Machine α n slots' m}
    (h : s.iterate.Alike g s'.iterate) (hiterations : s'.iterations = s.iterations)
    (hevaluations : s'.evaluations = s.evaluations) :
    Alike g (.stop status s) (.stop status s')
  | fail {fault : Fault} {s : Machine α n slots m} {s' : Machine α n slots' m} :
    Alike g (.fail fault s) (.fail fault s')

variable {g : Gauge α} {P P' : Problem α n e m}

/-! ## A pass -/

namespace Workspace

variable {ws : Workspace α n slots} {ws' : Workspace α n slots'}

theorem Alike.position?_eq (h : Alike g ws ws') (l : Label) (first : Nat) :
    ws'.position? l first = ws.position? l first := by
  have hlabel : ws'.label = ws.label := funext h.label
  rw [position?, position?, hlabel, h.count]

theorem Alike.labelsFrom_eq (h : Alike g ws ws') (hroom : ws.count ≤ slots + 1)
    (hroom' : ws.count ≤ slots' + 1) (first : Nat) :
    ws'.labelsFrom first = ws.labelsFrom first := by
  have hlabel : ws'.label = ws.label := funext h.label
  rw [Workspace.labelsFrom_eq hroom, Workspace.labelsFrom_eq (h.count.symm ▸ hroom'), hlabel,
    h.count]

end Workspace

namespace Iterate

variable {it : Iterate α n slots m} {it' : Iterate α n slots' m}

theorem drop_of_found {l : Label} {k p : Nat} {i : Fin m} (hl : l.position? m = some i)
    (hp : it.workspace.position? l k = some p) (hroom : it.workspace.count ≤ slots) :
    it.drop l k = .ok { it with
      workspace := it.workspace.eraseAt p
      isActive := Vec.set it.isActive i false } := by
  simp only [drop, hl, Workspace.delete, hp, if_pos hroom]

theorem drop_of_missing {l : Label} {k : Nat} {i : Fin m} (hl : l.position? m = some i)
    (hp : it.workspace.position? l k = none) :
    ∃ a, it.drop l k = .error (.notActive l.code, a) := by
  simp only [drop, hl, Workspace.delete, hp]
  exact ⟨_, rfl⟩

/-- A name is dropped from both, or missing in both. -/
theorem AlikeWithin.drop_cases (h : it.AlikeWithin g it') (hroom : it.workspace.count ≤ slots)
    (hroom' : it.workspace.count ≤ slots') (k : Nat)
    (hturns : ∀ p < it.workspace.count, g.TurnsAlike (it.workspace.erasePairs p)) (l : Label) :
    (∃ fault a a', it.drop l k = .error (fault, a) ∧ it'.drop l k = .error (fault, a')) ∨
      ∃ a a', it.drop l k = .ok a ∧ it'.drop l k = .ok a' ∧ a.AlikeWithin g a' := by
  cases hl : l.position? m with
  | none => exact .inl ⟨.indexOutOfRange, it, it', by simp only [drop, hl], by simp only [drop, hl]⟩
  | some i =>
    have hfound := h.workspace.position?_eq l k
    cases hp : it.workspace.position? l k with
    | none =>
      obtain ⟨a, ha⟩ := drop_of_missing hl hp
      obtain ⟨a', ha'⟩ := drop_of_missing hl (hfound.trans hp)
      exact .inl ⟨_, a, a', ha, ha'⟩
    | some p =>
      have hlt := Workspace.lt_count_of_position? hp
      refine .inr ⟨_, _, drop_of_found hl hp hroom,
        drop_of_found hl (hfound.trans hp) (h.workspace.count.symm ▸ hroom'),
        ⟨h.workspace.eraseAt hroom hroom' hlt (hturns p hlt), h.point, h.value, ?_⟩, h.saved,
        h.slack⟩
      exact congrArg (Vec.set · i false) h.isActive

/-- The point moves by the same amount in every gauge. -/
theorem add_scale_primal (point : Vector α n) (step : α) (z : Vector α n) :
    Vec.add point (Vec.scale (g.dual step) (z.map g.primal)) =
      Vec.add point (Vec.scale step z) := by
  apply Vec.ext_get
  intro i
  simp only [Vec.add, Vec.scale, Vec.get_ofFn, Vector.get_map, g.dual_mul_primal]

theorem raised_value (value step curvature dual : α) :
    g.dual value + g.dual step * g.primal curvature * (Scalar.half * g.dual step + g.dual dual) =
      g.dual (value + step * curvature * (Scalar.half * step + dual)) := by
  rw [g.dual_mul_primal, ← g.mul_dual, ← g.dual_add, ← g.mul_dual, ← g.dual_add]

variable {candidate : Fin m}

section Moved

variable (h : it.AlikeWithin g it') (haim : it.workspace.AlikeAimed g it'.workspace)
  (hroom : it.workspace.count ≤ slots) (hroom' : it.workspace.count ≤ slots') (step : α)
  {direction : Vector α it.workspace.count} {direction' : Vector α it'.workspace.count}
  (hsame : ∀ k, Vec.extend direction' k = Vec.extend direction k)
include h haim hroom hroom' hsame

theorem AlikeWithin.dualMove :
    (it.dualMove step direction).AlikeWithin g (it'.dualMove (g.dual step) direction') :=
  ⟨⟨(haim.shift hroom hroom' step hsame).toAlike, h.point, h.value, h.isActive⟩, h.saved, h.slack⟩

theorem AlikeWithin.move (curvature : α) :
    (it.move step curvature direction).AlikeWithin g
      (it'.move (g.dual step) (g.primal curvature) direction') := by
  refine ⟨⟨(haim.shift hroom hroom' step hsame).toAlike, ?_, ?_, h.isActive⟩, h.saved, h.slack⟩
  · show Vec.add it'.point (Vec.scale (g.dual step) it'.workspace.primal) = _
    rw [h.point, haim.primal, add_scale_primal]
    rfl
  · show it'.value + _ * _ * (_ + it'.workspace.dual it'.workspace.count) = _
    rw [h.value, haim.dual, haim.count, raised_value]
    rfl

end Moved

theorem AlikeWithin.report (h : it.AlikeWithin g it') (event event' : Event α) :
    (it.report event).AlikeWithin g (it'.report event') :=
  ⟨⟨h.workspace, h.point, h.value, h.isActive⟩, h.saved, h.slack⟩

theorem AlikeWithin.foldIn (h : it.AlikeWithin g it')
    (haim : it.workspace.AlikeAimed g it'.workspace) (hsteady : it.workspace.Steady g)
    (step step' : α) :
    PassResult.Alike g (it.foldIn candidate step) (it'.foldIn candidate step') := by
  unfold Iterate.foldIn
  rcases haim.fold_cases hsteady with ⟨w, w', hw, hw', halike⟩ | ⟨w, w', hw, hw'⟩
  · rw [hw, hw']
    refine .settled ⟨⟨halike, h.point, h.value, h.isActive⟩, ?_, h.slack⟩
    show w.saved.Alike g w'.saved
    rw [(Workspace.fold_keeps hw).2.2, (Workspace.fold_keeps hw').2.2]
    exact h.saved
  · rw [hw, hw']
    refine .degenerate ?_
    show w.saved.Alike g w'.saved
    rw [(Workspace.fold_keeps hw).2.2, (Workspace.fold_keeps hw').2.2]
    exact h.saved

/-- The same move leads on alike. -/
theorem AlikeWithin.act (h : it.AlikeWithin g it')
    (haim : it.workspace.AlikeAimed g it'.workspace) (hsteady : it.workspace.Steady g)
    (hroom : it.workspace.count ≤ slots) (hroom' : it.workspace.count ≤ slots')
    (hturns : ∀ p < it.workspace.count, g.TurnsAlike (it.workspace.erasePairs p))
    (c : Constraint α n) (k : Nat) {direction : Vector α it.workspace.count}
    {direction' : Vector α it'.workspace.count}
    (hsame : ∀ k, Vec.extend direction' k = Vec.extend direction k) (curvature : α)
    (move : Move α) :
    PassResult.Alike g (it.act candidate c k direction curvature move)
      (it'.act candidate c k direction' (g.primal curvature) (g.move move)) := by
  cases move with
  | stay => exact .settled h
  | full step =>
    have hmoved := h.move haim hroom hroom' step hsame curvature
    have haimed := haim.shift hroom hroom' step hsame
    exact hmoved.foldIn haimed ⟨hsteady.moves, hsteady.turns, hsteady.accepts⟩ _ _
  | dual step l =>
    have hmoved := (h.report (.dualStep step l) (.dualStep (g.dual step) l)).dualMove haim hroom
      hroom' step hsame
    rcases hmoved.drop_cases hroom hroom' k hturns l with
      ⟨fault, a, a', ha, ha'⟩ | ⟨a, a', ha, ha', halike⟩
    · simp only [Iterate.act, Gauge.move, dualStep, ha, ha']
      exact .failed
    · simp only [Iterate.act, Gauge.move, dualStep, ha, ha']
      exact .again halike
  | partway step l =>
    have hmoved := (h.move haim hroom hroom' step hsame curvature).report (.partialStep step l)
      (.partialStep (g.dual step) l)
    rcases hmoved.drop_cases hroom hroom' k hturns l with
      ⟨fault, a, a', ha, ha'⟩ | ⟨a, a', ha, ha', halike⟩
    · simp only [Iterate.act, Gauge.move, partialStep, ha, ha']
      exact .failed
    · simp only [Iterate.act, Gauge.move, partialStep, ha, ha']
      refine .again ⟨⟨halike.workspace, halike.point, halike.value, halike.isActive⟩, halike.saved,
        ?_⟩
      rw [halike.slack, halike.point]

/-- Passes from alike iterates lead on alike. -/
theorem AlikeWithin.pass (h : it.AlikeWithin g it') (hI : P'.inequalities = P.inequalities)
    (hroom : it.workspace.count ≤ slots) (hroom' : it.workspace.count ≤ slots')
    {c : Constraint α n} (hc : c = P.inequalities.get candidate)
    (hsteady : (it.workspace.aim c.normal).Steady g)
    (hstep : (it.workspace.aim c.normal).SteadyStep g e (it.slack.get candidate)
      ((it.workspace.aim c.normal).curvature c))
    (hturns : ∀ p < it.workspace.count, g.TurnsAlike (it.workspace.erasePairs p)) :
    PassResult.Alike g (it.pass P candidate) (it'.pass P' candidate) := by
  have hc' : c = P'.inequalities.get candidate := by rw [hI, hc]
  have haim := h.workspace.aim c.normal
  have haimed : AlikeWithin g { it with workspace := it.workspace.aim c.normal }
      { it' with workspace := it'.workspace.aim c.normal } :=
    ⟨⟨haim.toAlike, h.point, h.value, h.isActive⟩, h.saved, h.slack⟩
  rcases haim.dualDirection_cases with ⟨herror, herror'⟩ | ⟨d, d', hd, hd', hsame⟩
  · rw [pass_of_error hc herror, pass_of_error hc' herror']
    exact .failed
  · have hplan : (it'.workspace.aim c.normal).plan d' e (it'.slack.get candidate)
        (g.primal ((it.workspace.aim c.normal).curvature c)) =
          g.move ((it.workspace.aim c.normal).plan d e (it.slack.get candidate)
            ((it.workspace.aim c.normal).curvature c)) := by
      rw [h.slack]
      exact haim.plan_eq hsteady hd hsame hstep
    rw [pass_of_dualDirection hc hd, pass_of_dualDirection hc' hd', haim.curvature_eq, hplan]
    exact haimed.act haim hsteady hroom hroom' hturns c e hsame _ _

/-! ## An equality -/

/-- The step onto an equality in the other units. -/
theorem equalityStep_dual {ws : Workspace α n slots} {ws' : Workspace α n slots'}
    (haim : ws.AlikeAimed g ws') (hsteady : ws.Steady g) (c : Constraint α n) (x : Vector α n) :
    equalityStep ws' c x = g.dual (equalityStep ws c x) := by
  rw [equalityStep, equalityStep, haim.canMove_eq hsteady, haim.curvature_eq, g.div_primal]
  split
  · rfl
  · exact g.dual_zero.symm

theorem met_value (value step curvature : α) :
    g.dual value + Scalar.half * g.dual step * g.dual step * g.primal curvature =
      g.dual (value + Scalar.half * step * step * curvature) := by
  rw [← g.mul_dual Scalar.half step, ← g.dual_mul (Scalar.half * step) (g.dual step),
    ← g.mul_dual (Scalar.half * step) step, g.dual_mul_primal, ← g.dual_mul, ← g.dual_add]

end Iterate

namespace Machine

variable {it : Iterate α n slots m} {it' : Iterate α n slots' m} {limit : Nat}
  {tolerance tolerance' : α} {iterations evaluations : Nat}

theorem fail_of_direction {i : Fin e} {c : Constraint α n} (hc : c = P.equalities.get i)
    {fault : Fault} (herror : (it.workspace.aim c.normal).dualDirection = .error fault) :
    ∃ t, step P limit tolerance ⟨it, .equality i, iterations, evaluations⟩ = .fail fault t := by
  subst hc
  simp only [step, dif_pos i.isLt, equalityStep, herror]
  exact ⟨_, rfl⟩

theorem fail_of_refused {i : Fin e} {c : Constraint α n} (hc : c = P.equalities.get i)
    {direction : Vector α (it.workspace.aim c.normal).count}
    (hdirection : (it.workspace.aim c.normal).dualDirection = .ok direction)
    {w w' : Workspace α n slots} {u : α}
    (hu : u = Iterate.equalityStep (it.workspace.aim c.normal) c it.point)
    (hw : ((it.workspace.aim c.normal).relax u direction).place (.equality i) u = .ok w)
    (hfold : w.fold = (w', false)) :
    ∃ t, step P limit tolerance ⟨it, .equality i, iterations, evaluations⟩ =
      .fail (.dependentEquality i) t := by
  subst hc hu
  simp only [step, dif_pos i.isLt, equalityStep, hdirection]
  split
  · next hfailed => cases hw.symm.trans hfailed
  · next hplaced =>
    cases hw.symm.trans hplaced
    rw [hfold]
    exact ⟨_, rfl⟩

/-- An equality is met in both solves, or both fail at it. -/
theorem equality_alike (h : it.Alike g it') (hE : P'.equalities = P.equalities) {i : Fin e}
    (hroom : it.workspace.count ≤ slots) (hroom' : it.workspace.count ≤ slots')
    {c : Constraint α n} (hc : c = P.equalities.get i)
    (hsteady : (it.workspace.aim c.normal).Steady g) :
    Transition.Alike g (step P limit tolerance ⟨it, .equality i, iterations, evaluations⟩)
      (step P' limit tolerance' ⟨it', .equality i, iterations, evaluations⟩) := by
  have hc' : c = P'.equalities.get i := by rw [hE, hc]
  have haim := h.workspace.aim c.normal
  rcases haim.dualDirection_cases with ⟨herror, herror'⟩ | ⟨d, d', hd, hd', hsame⟩
  · obtain ⟨t, ht⟩ := fail_of_direction hc herror
    obtain ⟨t', ht'⟩ := fail_of_direction hc' herror'
    rw [ht, ht']
    exact .fail
  · generalize hu : Iterate.equalityStep (it.workspace.aim c.normal) c it.point = u
    have hu' : g.dual u = Iterate.equalityStep (it'.workspace.aim c.normal) c it'.point := by
      rw [Iterate.equalityStep_dual haim hsteady, h.point, hu]
    have hrelaxed := haim.relax hroom hroom' u hsame
    have hsame_room : it'.workspace.count ≤ slots' := h.workspace.count.symm ▸ hroom'
    obtain ⟨w, hw⟩ : ∃ w, ((it.workspace.aim c.normal).relax u d).place (.equality i) u = .ok w :=
      ⟨_, dif_pos (Nat.lt_succ_of_le hroom)⟩
    obtain ⟨w', hw'⟩ : ∃ w', ((it'.workspace.aim c.normal).relax (g.dual u) d').place (.equality i)
        (g.dual u) = .ok w' := ⟨_, dif_pos (Nat.lt_succ_of_le hsame_room)⟩
    have hplaced := hrelaxed.place hw hw'
    have hsteady₁ : w.Steady g := Workspace.Steady.place hw
      ⟨hsteady.moves, hsteady.turns, hsteady.accepts⟩
    rcases hplaced.fold_cases hsteady₁ with ⟨w₁, w₁', hfold, hfold', halike⟩ |
      ⟨w₁, w₁', hfold, hfold'⟩
    · rw [step_of_met ⟨hc, rfl, hd, hu.symm, hw, hfold⟩,
        step_of_met ⟨hc', rfl, hd', hu', hw', hfold'⟩]
      refine .next ⟨⟨halike, ?_, ?_, h.isActive⟩, rfl, rfl, rfl, fun hwithin => by cases hwithin⟩
      · rw [h.point, haim.primal, Iterate.add_scale_primal]
      · rw [h.value, haim.curvature_eq, Iterate.met_value]
    · obtain ⟨t, ht⟩ := fail_of_refused hc hd hu.symm hw hfold
      obtain ⟨t', ht'⟩ := fail_of_refused hc' hd' hu' hw' hfold'
      rw [ht, ht']
      exact .fail

end Machine

/-! ## The head of an iteration and the choice of a candidate -/

theorem Problem.slacks_congr (hI : P'.inequalities = P.inequalities) (x : Vector α n) :
    P'.slacks x = P.slacks x := by
  rw [slacks, slacks, hI]

namespace Iterate

variable {it : Iterate α n slots m} {it' : Iterate α n slots' m}

theorem Alike.evaluate (h : it.Alike g it') (hI : P'.inequalities = P.inequalities) :
    (it.evaluate P).Alike g (it'.evaluate P') ∧
      (it'.evaluate P').slack = (it.evaluate P).slack := by
  refine ⟨⟨h.workspace, h.point, h.value, h.isActive⟩, ?_⟩
  show P'.slacks it'.point = P.slacks it.point
  rw [Problem.slacks_congr hI, h.point]

/-- What an iteration saves is alike. -/
theorem Alike.saved (h : it.Alike g it') :
    Snapshot.Alike g (it.workspace.save it.point it.value).saved
      (it'.workspace.save it'.point it'.value).saved :=
  ⟨h.workspace.factors, h.workspace.label, h.workspace.dual, h.point, h.value⟩

/-- What is undone is alike again. -/
theorem alike_undo (h : it.workspace.saved.Alike g it'.workspace.saved) :
    Workspace.Alike g it.undo.workspace it'.undo.workspace ∧ it'.undo.point = it.undo.point ∧
      it'.undo.value = g.dual it.undo.value :=
  ⟨⟨h.factors, h.label, h.dual⟩, h.point, h.value⟩

theorem AlikeWithin.mostViolated_eq (h : it.AlikeWithin g it') (excluded : Vector Bool m) :
    it'.mostViolated excluded = it.mostViolated excluded := by
  have hcandidate : it'.isCandidate excluded = it.isCandidate excluded := by
    funext i
    rw [isCandidate, isCandidate, h.isActive, h.slack]
  have hleast (l : List (Fin m)) : it'.leastSlack l = it.leastSlack l := by
    cases l with
    | nil => rfl
    | cons i l => simp only [leastSlack, h.slack]
  rw [mostViolated, mostViolated, hcandidate, hleast]

theorem reached_of_degenerate {candidate : Fin m} {it₁ : Iterate α n slots m}
    (h : it.pass P candidate = .settled .degenerate it₁) : it.Reached P candidate false it₁ := by
  rcases pass_cases P candidate it with
    ⟨fault, it₂, hp⟩ | ⟨it₂, hp, -⟩ | ⟨it₂, hp, -⟩ | ⟨it₂, hp, -⟩ | ⟨it₂, hp, hreached⟩
  · cases h.symm.trans hp
  · cases h.symm.trans hp
  · cases h.symm.trans hp
  · cases h.symm.trans hp
  · cases h.symm.trans hp
    exact hreached

end Iterate

namespace Machine

variable {it : Iterate α n slots m} {it' : Iterate α n slots' m} {limit : Nat}
  {tolerance tolerance' : α} {iterations evaluations : Nat}

/-- An iteration begins in both solves, or both end before it. -/
theorem head_alike (h : it.Alike g it') (hI : P'.inequalities = P.inequalities)
    (hsteady : Scalar.le (Scalar.abs (P.infeasibilityAt it.point)) tolerance' =
      Scalar.le (Scalar.abs (P.infeasibilityAt it.point)) tolerance) :
    Transition.Alike g (step P limit tolerance ⟨it, .head, iterations, evaluations⟩)
      (step P' limit tolerance' ⟨it', .head, iterations, evaluations⟩) := by
  obtain ⟨halike, hslack⟩ := h.evaluate hI
  have hverdict : Scalar.le (Scalar.abs (P'.infeasibilityAt it'.point)) tolerance' =
      Scalar.le (Scalar.abs (P.infeasibilityAt it.point)) tolerance := by
    rw [← hsteady, h.point, Problem.infeasibilityAt, Problem.infeasibilityAt,
      Problem.slacks_congr hI]
  cases hnear : Scalar.le (Scalar.abs (P.infeasibilityAt it.point)) tolerance with
  | true =>
    rw [stop_of_near hnear, stop_of_near (hverdict.trans hnear)]
    exact .stop halike rfl rfl
  | false =>
    rcases Nat.lt_or_ge iterations limit with hlimit | hlimit
    · rw [step_of_begun hnear hlimit, step_of_begun (hverdict.trans hnear) hlimit]
      have hbegun : Iterate.AlikeWithin g
          { it.evaluate P with workspace := it.workspace.save it.point it.value }
          { it'.evaluate P' with workspace := it'.workspace.save it'.point it'.value } :=
        ⟨⟨⟨h.workspace.factors, h.workspace.label, h.workspace.dual⟩, h.point, h.value,
          h.isActive⟩, h.saved, hslack⟩
      exact .next ⟨hbegun.toAlike, rfl, rfl, rfl, fun _ => hbegun⟩
    · obtain ⟨events, hstop⟩ := stop_of_limit hnear hlimit
      obtain ⟨events', hstop'⟩ := stop_of_limit (hverdict.trans hnear) hlimit
      rw [hstop, hstop']
      exact .stop ⟨h.workspace, h.point, h.value, h.isActive⟩ rfl rfl

/-- The same candidate is chosen in both solves, or both end for want of one. -/
theorem select_alike (h : it.AlikeWithin g it') {excluded : Vector Bool m}
    (hroom : ∀ candidate, it.mostViolated excluded = some candidate →
      it.workspace.count ≤ slots ∧ it.workspace.count ≤ slots') :
    Transition.Alike g (step P limit tolerance ⟨it, .select excluded, iterations, evaluations⟩)
      (step P' limit tolerance' ⟨it', .select excluded, iterations, evaluations⟩) := by
  have hsame := h.mostViolated_eq excluded
  cases hcandidate : it.mostViolated excluded with
  | none =>
    cases hany : excluded.any id with
    | true =>
      obtain ⟨events, hstop⟩ := stop_of_degenerate hcandidate hany
      obtain ⟨events', hstop'⟩ := stop_of_degenerate (hsame.trans hcandidate) hany
      rw [hstop, hstop']
      exact .stop ⟨h.workspace, h.point, h.value, h.isActive⟩ rfl rfl
    | false =>
      rw [stop_of_exhausted hcandidate hany, stop_of_exhausted (hsame.trans hcandidate) hany]
      exact .stop h.toAlike rfl rfl
  | some candidate =>
    obtain ⟨hfree, hfree'⟩ := hroom candidate hcandidate
    obtain ⟨w, hw⟩ : ∃ w, it.workspace.place (.inequality candidate) 0 = .ok w :=
      ⟨_, dif_pos (Nat.lt_succ_of_le hfree)⟩
    obtain ⟨w', hw'⟩ : ∃ w', it'.workspace.place (.inequality candidate) 0 = .ok w' :=
      ⟨_, dif_pos (by rw [h.workspace.count]; exact Nat.lt_succ_of_le hfree')⟩
    have hplaced : w.Alike g w' :=
      h.workspace.place hw (u := 0) (by rw [g.dual_zero]; exact hw')
    have hsaved : w.saved.Alike g w'.saved := by
      obtain ⟨_, rfl⟩ := Workspace.place_ok hw
      obtain ⟨_, rfl⟩ := Workspace.place_ok hw'
      exact h.saved
    rw [step_of_chosen hcandidate hw, step_of_chosen (hsame.trans hcandidate) hw']
    exact .next ⟨⟨hplaced, h.point, h.value, h.isActive⟩, rfl, rfl, rfl, fun _ =>
      ⟨⟨hplaced, h.point, h.value, h.isActive⟩, hsaved, h.slack⟩⟩

/-! ## Working on a candidate -/

/-- A degenerate candidate is undone in both solves. -/
theorem undone_alike {candidate : Fin m} {excluded : Vector Bool m}
    {fresh : excluded.get candidate = false} {it₁ : Iterate α n slots m}
    {it₁' : Iterate α n slots' m} (hI : P'.inequalities = P.inequalities)
    (hadds : it.Adds P tolerance candidate) (hroom : e + m ≤ slots')
    (hpass : it.pass P candidate = .settled .degenerate it₁)
    (hpass' : it'.pass P' candidate = .settled .degenerate it₁')
    (h : it₁.workspace.saved.Alike g it₁'.workspace.saved) :
    Transition.Alike g
      (step P limit tolerance ⟨it, .pass candidate excluded fresh, iterations, evaluations⟩)
      (step P' limit tolerance'
        ⟨it', .pass candidate excluded fresh, iterations, evaluations⟩) := by
  obtain ⟨hworkspace, hpoint, hvalue⟩ := Iterate.alike_undo h
  have hreached := Iterate.reached_of_degenerate hpass
  obtain ⟨isActive, hflags⟩ := hadds.exists_flags hreached
  -- the saved names fit into both workspaces, so the same flags are read off them
  have hsaved : it₁.workspace.saved = it.workspace.saved := hreached.keeps.2.1
  have hcount : it₁.undo.workspace.count ≤ slots + 1 := by
    show it₁.workspace.saved.count ≤ slots + 1
    rw [hsaved]
    exact hadds.saved_count_le
  have hcount' : it₁.undo.workspace.count ≤ slots' + 1 := by
    obtain ⟨flags, hseating⟩ := hadds.saved_seating
    have hle := hseating.count_le
    show it₁.workspace.saved.count ≤ slots' + 1
    rw [hsaved]
    omega
  have hflags' : Iterate.flags m (it₁'.undo.workspace.labelsFrom e) = .ok isActive := by
    rw [hworkspace.labelsFrom_eq hcount hcount', hflags]
  obtain ⟨events, hnext⟩ := step_of_refused hreached hflags
  obtain ⟨events', hnext'⟩ := step_of_refused (Iterate.reached_of_degenerate hpass') hflags'
  rw [hnext, hnext']
  have halike : Iterate.Alike g { it₁.undo with isActive, events }
      { it₁'.undo with isActive, events := events' } := ⟨hworkspace, hpoint, hvalue, rfl⟩
  obtain ⟨hmeasured, hslack⟩ := halike.evaluate hI
  exact .next ⟨hmeasured, rfl, rfl, rfl, fun _ => ⟨hmeasured, h, hslack⟩⟩

/-- A pass whose result is alike leads on alike. -/
theorem pass_alike {candidate : Fin m} {excluded : Vector Bool m}
    {fresh : excluded.get candidate = false} (hI : P'.inequalities = P.inequalities)
    (hadds : it.Adds P tolerance candidate) (hroom : e + m ≤ slots')
    (h : PassResult.Alike g (it.pass P candidate) (it'.pass P' candidate)) :
    Transition.Alike g
      (step P limit tolerance ⟨it, .pass candidate excluded fresh, iterations, evaluations⟩)
      (step P' limit tolerance'
        ⟨it', .pass candidate excluded fresh, iterations, evaluations⟩) := by
  generalize hpass : it.pass P candidate = result at h
  generalize hpass' : it'.pass P' candidate = result' at h
  cases h with
  | failed =>
    simp only [step, passStep, hpass, hpass']
    exact .fail
  | again h =>
    simp only [step, passStep, hpass, hpass']
    exact .next ⟨h.toAlike, rfl, rfl, rfl, fun _ => h⟩
  | degenerate h => exact undone_alike hI hadds hroom hpass hpass' h
  | @settled outcome it₁ it₁' h =>
    cases outcome with
    | degenerate => exact undone_alike hI hadds hroom hpass hpass' h.saved
    | noStep =>
      simp only [step, passStep, hpass, hpass']
      exact .stop ⟨h.workspace, h.point, h.value, h.isActive⟩ rfl rfl
    | added =>
      simp only [step, passStep, hpass, hpass']
      exact .next ⟨⟨h.workspace, h.point, h.value, congrArg (Vec.set · candidate true) h.isActive⟩,
        rfl, rfl, rfl, fun hwithin => by cases hwithin⟩

/-! ## The whole run -/

/-- One transition of two solves in step. -/
theorem step_alike {s : Machine α n slots m} {s' : Machine α n slots' m} (h : s.Alike g s')
    (hE : P'.equalities = P.equalities) (hI : P'.inequalities = P.inequalities)
    (hs : Standing P tolerance s) (hroom : e + m ≤ slots) (hroom' : e + m ≤ slots')
    (hsteady : s.Steady g P tolerance tolerance') :
    Transition.Alike g (s.step P limit tolerance) (s'.step P' limit tolerance') := by
  obtain ⟨it, _, _, _⟩ := s
  obtain ⟨it', phase, iterations, evaluations⟩ := s'
  obtain ⟨halike, hphase, hiterations, hevaluations, hwithin⟩ := h
  dsimp only at halike hphase hiterations hevaluations hwithin
  subst hphase hiterations hevaluations
  cases phase with
  | equality i =>
    rcases Nat.lt_or_ge i e with hi | hi
    · obtain ⟨-, hcount, -⟩ := hs
      change it.workspace.count = i at hcount
      exact equality_alike (i := ⟨i, hi⟩) halike hE (by omega) (by omega) rfl
        (hsteady.inHand _ (inHand_of_equality rfl))
    · rw [step_of_allMet hi, step_of_allMet hi]
      exact .next ⟨halike, rfl, rfl, rfl, fun hwithin => by cases hwithin⟩
  | head => exact head_alike halike hI (hsteady.head rfl)
  | select excluded =>
    refine select_alike (hwithin rfl) fun candidate hcandidate => ?_
    have hchosen := Iterate.isCandidate_of_mostViolated hcandidate
    simp only [Iterate.isCandidate, Bool.and_eq_true, Bool.not_eq_true'] at hchosen
    have hless := (Iterate.Rests.toSeated hs).seating.count_lt hchosen.1.1
    change it.workspace.count < e + m at hless
    exact ⟨by omega, by omega⟩
  | pass candidate excluded fresh =>
    have hadds : it.Adds P tolerance candidate := hs
    have hless := hadds.seating.count_lt hadds.inactive
    refine pass_alike hI hadds hroom' ((hwithin rfl).pass hI (by omega) (by omega) rfl
      (hsteady.inHand _ rfl) (hsteady.step _ _ _ rfl _ rfl) (hsteady.deletions _ _ _ rfl))

/-- No more constraints are active at the end than there are. -/
theorem Ends.count_le {status : Status} {s t : Machine α n slots m}
    (h : Ends P limit tolerance s status t) (hs : Standing P tolerance s) :
    t.iterate.workspace.count ≤ e + m := by
  have hcount : t.iterate.workspace.count = s.iterate.workspace.count :=
    congrArg Snapshot.count h.snapshot
  rw [hcount]
  exact (h.seating hs).2.count_le

/-- Two runs that stay in step come to the same end. -/
theorem run_alike {s : Machine α n slots m} {s' : Machine α n slots' m} (h : s.Alike g s')
    (hE : P'.equalities = P.equalities) (hI : P'.inequalities = P.inequalities)
    (hs : Standing P tolerance s) (hroom : e + m ≤ slots) (hroom' : e + m ≤ slots')
    (hsteady : ∀ history history' t t', Course P limit tolerance s history t →
      Course P' limit tolerance' s' history' t' → t.Alike g t' →
        t.Steady g P tolerance tolerance') :
    (∃ status t t', s.run P limit tolerance = (.ok status, t) ∧
        s'.run P' limit tolerance' = (.ok status, t') ∧ t.iterate.Alike g t'.iterate ∧
          t'.iterations = t.iterations ∧ t'.evaluations = t.evaluations ∧
            t.iterate.workspace.count ≤ e + m) ∨
      ∃ fault t t', s.run P limit tolerance = (.error fault, t) ∧
        s'.run P' limit tolerance' = (.error fault, t') := by
  -- along the first run, as far as it goes
  induction s using Machine.run.induct P limit tolerance generalizing s' with
  | case1 s t hstep ih =>
    have hnext : Transition.Alike g (s.step P limit tolerance) (s'.step P' limit tolerance') :=
      step_alike h hE hI hs hroom hroom' (hsteady _ _ _ _ .start .start h)
    rw [hstep] at hnext
    generalize hstep' : s'.step P' limit tolerance' = next' at hnext
    cases hnext with
    | next halike =>
      rw [run_of_next hstep, run_of_next hstep']
      refine ih halike (standing_of_leads (leads_of_step hstep) hs) ?_
      intro history history' u u' hu hu'
      exact hsteady _ _ u u' (hu.cons hstep) (hu'.cons hstep')
  | case2 s status t hstep =>
    have hnext : Transition.Alike g (s.step P limit tolerance) (s'.step P' limit tolerance') :=
      step_alike h hE hI hs hroom hroom' (hsteady _ _ _ _ .start .start h)
    rw [hstep] at hnext
    generalize hstep' : s'.step P' limit tolerance' = next' at hnext
    cases hnext with
    | stop halike hiterations hevaluations =>
      exact .inl ⟨status, _, _, run_of_stop hstep, run_of_stop hstep', halike, hiterations,
        hevaluations, (ends_of_step hstep).count_le hs⟩
  | case3 s fault t hstep =>
    have hnext : Transition.Alike g (s.step P limit tolerance) (s'.step P' limit tolerance') :=
      step_alike h hE hI hs hroom hroom' (hsteady _ _ _ _ .start .start h)
    rw [hstep] at hnext
    generalize hstep' : s'.step P' limit tolerance' = next' at hnext
    cases hnext with
    | fail => exact .inr ⟨fault, _, _, run_of_fail hstep, run_of_fail hstep'⟩

end Machine

end ActiveSet

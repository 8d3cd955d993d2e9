import ActiveSet.Proofs.Ascent
/-
  Why the heads do not repeat

  A step towards a candidate counts as full if it ends within the threshold of
  the full one. In a separated run in which every such difference is zero or
  at least the threshold, it ends exactly there: every active constraint is
  tight from the moment it is folded in (`slack_eq_zero_of_course`), and the
  transition that folds in a candidate raises the value (`value_lt_of_reached`).

  At a head the point minimizes the objective on the set where the active
  constraints are tight, so the value there is decided by the active set, and
  is the greater the more constraints there are (`value_le_of_subset`). As it
  rises from each head to the next, no active set comes back, and there are
  `2 ^ m` of them (`iterations_le`).
-/

open Matrix

namespace ActiveSet

variable {n e m slots : Nat}

/-! ## Steps that end where they should -/

/-- The difference between a step and the full one, where they are compared; zero elsewhere. -/
def Workspace.gap {α : Type} [Scalar α] (ws : Workspace α n slots) (direction : Vector α ws.count)
    (first : Nat) (slack curvature : α) : α :=
  let full := ws.fullStep slack curvature
  match finiteStep (shorterStep ((ws.blocking direction first).map Prod.fst) full),
    finiteStep full with
  | some step, some full => Scalar.abs (step - full)
  | _, _ => 0

/-- A point that cannot move has no full step to compare with. -/
theorem Workspace.gap_of_stay {ws : Workspace ℝ n slots} {direction : Vector ℝ ws.count}
    {first : Nat} {slack curvature : ℝ} (h : ws.canMove = false) :
    ws.gap direction first slack curvature = 0 := by
  unfold gap fullStep
  simp [h, finiteStep_real]

/-- A step that nothing blocks is the full one. -/
theorem Workspace.gap_of_free {ws : Workspace ℝ n slots} {direction : Vector ℝ ws.count}
    {first : Nat} {slack curvature : ℝ} (h : ws.blocking direction first = none) :
    ws.gap direction first slack curvature = 0 := by
  cases hmove : ws.canMove with
  | false => exact gap_of_stay hmove
  | true =>
    unfold gap fullStep
    simp [h, hmove, finiteStep_real, shorterStep]

/-- A step that is blocked is compared with the full one. -/
theorem Workspace.gap_of_blocked {ws : Workspace ℝ n slots} {direction : Vector ℝ ws.count}
    {first : Nat} {slack curvature b : ℝ} {l : Label} (hmove : ws.canMove = true)
    (h : ws.blocking direction first = some (b, l)) :
    ws.gap direction first slack curvature =
      |min b (-slack / curvature) - -slack / curvature| := by
  unfold gap fullStep
  simp only [h, hmove, if_true, finiteStep_real, Option.map_some, shorterStep, Scalar.smaller_real,
    Scalar.abs_real]

/-- A step that counts as full is shorter than the full one by less than the threshold. -/
theorem Workspace.gap_of_full {ws : Workspace ℝ n slots} {direction : Vector ℝ ws.count}
    {first : Nat} {slack curvature step : ℝ}
    (h : ws.plan direction first slack curvature = .full step) :
    ws.gap direction first slack curvature = |step - -slack / curvature| ∧
      |step - -slack / curvature| < Scalar.epsilon := by
  obtain ⟨hmove, -, -, -⟩ := plan_full h
  cases hblock : ws.blocking direction first with
  | none =>
    rw [plan_of_free hmove hblock] at h
    cases h
    rw [gap_of_free hblock, sub_self, abs_zero]
    exact ⟨rfl, Scalar.epsilon_pos⟩
  | some bl =>
    rw [plan_of_blocked hmove hblock] at h
    split at h
    · next hnear =>
      cases h
      exact ⟨gap_of_blocked hmove hblock, hnear⟩
    · cases h

/-- Whether no pass compares a step with a full one from which it differs by less than the
threshold, but differs. -/
def Machine.StepsApart (P : Problem ℝ n e m) (s : Machine ℝ n slots m) : Prop :=
  ∀ candidate excluded fresh, s.phase = .pass candidate excluded fresh →
    ∀ (c : Constraint ℝ n) (direction : Vector ℝ (s.iterate.workspace.aim c.normal).count),
      c = P.inequalities.get candidate →
        (s.iterate.workspace.aim c.normal).dualDirection = .ok direction →
          let gap := (s.iterate.workspace.aim c.normal).gap direction e
            (s.iterate.slack.get candidate) ((s.iterate.workspace.aim c.normal).curvature c)
          gap = 0 ∨ Scalar.epsilon ≤ gap

namespace Machine

variable {P : Problem ℝ n e m} {limit : Nat} {tolerance : ℝ} {candidate : Fin m}
  {it it' : Iterate ℝ n slots m} {history : List (Admission ℝ n slots m)}
  {excluded : Vector Bool m} {fresh : excluded.get candidate = false}
  {iterations evaluations : Nat}

/-- Where the steps are apart, a step that counts as full is the full one. -/
theorem step_eq_of_full
    (hapart : StepsApart P ⟨it, .pass candidate excluded fresh, iterations, evaluations⟩)
    {c : Constraint ℝ n} {direction : Vector ℝ (it.workspace.aim c.normal).count} {step : ℝ}
    (hc : c = P.inequalities.get candidate)
    (hdirection : (it.workspace.aim c.normal).dualDirection = .ok direction)
    (hplan : (it.workspace.aim c.normal).plan direction e (it.slack.get candidate)
      ((it.workspace.aim c.normal).curvature c) = .full step) :
    step = -it.slack.get candidate / (it.workspace.aim c.normal).curvature c := by
  obtain ⟨hgap, hnear⟩ := Workspace.gap_of_full hplan
  rcases hapart candidate excluded fresh rfl c direction hc hdirection with hzero | hfar
  · exact sub_eq_zero.mp (abs_eq_zero.mp (hgap.symm.trans hzero))
  · change Scalar.epsilon ≤ Workspace.gap _ _ _ _ _ at hfar
    rw [hgap] at hfar
    exact absurd hnear (not_lt.mpr hfar)

section Reached

variable
  (hapart : StepsApart P ⟨it, .pass candidate excluded fresh, iterations, evaluations⟩)
  (hadds : it.Adds P tolerance candidate) (hcolumns : Columns P history it.snapshot)
include hapart hadds hcolumns

/-- A candidate that is folded in is tight. -/
theorem slack_eq_zero_of_reached {accepted : Bool}
    (hreached : it.Reached P candidate accepted it') :
    (P.inequalities.get candidate).slack it'.point = 0 := by
  cases hreached with
  | @intro c ws ws₁ direction step events hc hws hdirection hplan hfold =>
    subst hws
    obtain ⟨hmove, -, -, -⟩ := Workspace.plan_full hplan
    have hcurvature : 0 < (it.workspace.aim c.normal).curvature c :=
      hcolumns.factored.curvature_pos_of_canMove hmove
    have hrise : c.normal.get ⬝ᵥ (it.workspace.aim c.normal).primal.get =
        (it.workspace.aim c.normal).curvature c := by
      rw [Workspace.curvature, Vec.dot_eq, dotProduct_comm]
    show (P.inequalities.get candidate).slack (Vec.add it.point (Vec.scale step _)) = 0
    rw [← hc, Constraint.slack_move, hrise, step_eq_of_full hapart hc hdirection hplan,
      hadds.measured, ← hc, div_mul_cancel₀ _ hcurvature.ne', add_neg_cancel]

/-- Folding in a candidate raises the value. -/
theorem value_lt_of_reached (h : it.DualFeasible e candidate) {accepted : Bool}
    (hreached : it.Reached P candidate accepted it') : it.value < it'.value := by
  cases hreached with
  | @intro c ws ws₁ direction step events hc hws hdirection hplan hfold =>
    subst hws
    obtain ⟨hmove, -, -, -⟩ := Workspace.plan_full hplan
    have hcurvature : 0 < (it.workspace.aim c.normal).curvature c :=
      hcolumns.factored.curvature_pos_of_canMove hmove
    have hstep : 0 < step := by
      rw [step_eq_of_full hapart hc hdirection hplan]
      exact div_pos (neg_pos.mpr h.violated) hcurvature
    have hdual : 0 ≤ it.workspace.dual it.workspace.count :=
      h.nonneg _ hadds.seating.met_le (le_refl _)
    show it.value < it.value + step * (it.workspace.aim c.normal).curvature c *
      (Scalar.half * step + it.workspace.dual it.workspace.count)
    rw [Scalar.half_real]
    have hgain : 0 < step * (it.workspace.aim c.normal).curvature c *
        (1 / 2 * step + it.workspace.dual it.workspace.count) := by positivity
    linarith

end Reached

/-- Every inequality is tight when it has been folded in. -/
theorem slack_eq_zero_of_admission {start s : Machine ℝ n slots m}
    (hphase : start.phase = .equality 0) (hstanding : Standing P tolerance start)
    (hcolumns : Columns P [] start.iterate.snapshot)
    (hapart : ∀ history s, Course P limit tolerance start history s → s.StepsApart P)
    (hcourse : Course P limit tolerance start history s) {a : Admission ℝ n slots m}
    (ha : a ∈ history) {i : Fin m} (hi : a.label = .inequality i) :
    (P.inequalities.get i).slack a.after.iterate.point = 0 := by
  obtain ⟨earlier, hbefore, hstep, hadmitted⟩ := hcourse.exists_transition ha
  have hstood : Standing P tolerance a.before := standing_of_course hstanding hbefore
  have hnow := columns_of_course hphase hstanding hcolumns hbefore
  have hsteps := hapart _ _ hbefore
  obtain ⟨label, before, after⟩ := a
  cases leads_of_step hstep with
  | added hreached =>
    cases List.mem_singleton.mp hadmitted
    cases Fin.ext (Label.inequality.inj hi)
    have htight := slack_eq_zero_of_reached hsteps hstood hnow hreached
    exact htight
  -- the other transitions fold in an equality, or nothing
  | met =>
    cases List.mem_singleton.mp hadmitted
    cases hi
  | allMet | begun | chosen | dropped | undone => exact absurd hadmitted List.not_mem_nil

end Machine

namespace Program

variable {program : Program ℝ} {limit : Int} {buffers : Option (Buffers ℝ)}
  {history history' : List (Admission ℝ program.dimension slots program.inequalityCount)}
  {s t : Machine ℝ program.dimension slots program.inequalityCount}

/-- Whether every difference between a step and the full one that a solve compares with the
threshold is zero or at least the threshold. -/
def StepsApart (program : Program ℝ) (limit : Int) (buffers : Option (Buffers ℝ)) : Prop :=
  ∀ (slots : Nat) (history : List (Admission ℝ program.dimension slots program.inequalityCount))
    (s : Machine ℝ program.dimension slots program.inequalityCount),
    program.Course limit buffers history s → s.StepsApart program.problem

/-- In one variable a point that can move is blocked by nothing, so the steps of a solve are never
close but different. -/
theorem stepsApart_of_one (P : Problem ℝ 1 e m) (limit : Int) (buffers : Option (Buffers ℝ)) :
    (⟨P⟩ : Program ℝ).StepsApart limit buffers := by
  intro slots history s _ candidate excluded fresh _ c direction _ _
  left
  rcases Nat.eq_zero_or_pos s.iterate.workspace.count with hfree | hfull
  · apply Workspace.gap_of_free
    exact Workspace.blocking_of_empty hfree _ _
  · apply Workspace.gap_of_stay
    exact Workspace.canMove_eq_false (Workspace.primal_of_full hfull c.normal)

section Separated

variable (hsymmetric : program.problem.quadratic.IsSymmetric)
  (hseparated : program.Separated limit buffers) (hapart : program.StepsApart limit buffers)
include hsymmetric hseparated

/-- At a head the gradient is the combination of the active normals with the dual values. -/
theorem balanced_of_head (h : program.Course limit buffers history s) (hs : s.phase = .head) :
    s.iterate.snapshot.Balanced program.problem := by
  obtain ⟨L, workspace, hfactor, hroom, hcourse⟩ := h
  have hholds := (Machine.upkeep_balanced hsymmetric rfl (Machine.standing_start _ _ _ _ _)
    (columns_origin hsymmetric hfactor workspace) (balanced_origin hsymmetric hfactor workspace)
    (hseparated.machine hfactor hroom)).holds rfl (Machine.standing_start _ _ _ _ _) hcourse
  rw [Machine.Holds, hs] at hholds
  exact hholds

include hapart

/-- Every active constraint is tight. -/
theorem slack_eq_zero_of_course (h : program.Course limit buffers history s) {k : Nat}
    (hk : k < s.iterate.workspace.count) {c : Constraint ℝ program.dimension}
    (hc : program.problem.constraint? (s.iterate.workspace.label k) = some c) :
    c.slack s.iterate.point = 0 := by
  cases hlabel : s.iterate.workspace.label k with
  | equality i =>
    rw [hlabel, Problem.constraint?] at hc
    split at hc
    · next hi =>
      cases hc
      exact (slack_eq_of_course hsymmetric hseparated h hk).1 ⟨i, hi⟩ hlabel
    · cases hc
  | inequality i =>
    -- it keeps the slack that it was folded in with
    obtain ⟨a, ha, -, hkept⟩ := exists_landing hsymmetric h hk hc
    have hmem : a ∈ history := List.mem_of_find?_eq_some ha
    have hname : a.label = .inequality i := by
      rw [← hlabel]
      simpa [ownFold] using List.find?_some ha
    rw [hkept ((hseparated _ _ _ h).1 a hmem)]
    rw [hlabel, Problem.constraint?] at hc
    split at hc
    · next hi =>
      cases hc
      obtain ⟨L, workspace, hfactor, hroom, hcourse⟩ := h
      exact Machine.slack_eq_zero_of_admission rfl (Machine.standing_start _ _ _ _ _)
        (columns_origin hsymmetric hfactor workspace)
        (fun history s hs => hapart _ history s ⟨L, workspace, hfactor, hroom, hs⟩) hcourse hmem
        (show a.label = .inequality (⟨i, hi⟩ : Fin program.inequalityCount) from hname)
    · cases hc

/-- Of two heads, the one with more active constraints does not have the lower value. -/
theorem value_le_of_subset (h : program.Course limit buffers history s) (hs : s.phase = .head)
    (h' : program.Course limit buffers history' t) (ht : t.phase = .head)
    (hsubset : ∀ i, s.iterate.isActive.get i = true → t.iterate.isActive.get i = true) :
    s.iterate.value ≤ t.iterate.value := by
  have hseating : Seating program.equalityCount s.iterate.workspace.count
      s.iterate.workspace.label s.iterate.isActive := by
    have hstanding := standing_of_course h
    rw [Machine.Standing, hs] at hstanding
    exact hstanding.seating
  have hseating' : Seating program.equalityCount t.iterate.workspace.count
      t.iterate.workspace.label t.iterate.isActive := by
    have hstanding := standing_of_course h'
    rw [Machine.Standing, ht] at hstanding
    exact hstanding.seating
  have hbalanced := balanced_of_head hsymmetric hseparated h hs
  have hvalue : s.iterate.value = program.problem.objective s.iterate.point := hbalanced.value
  have hvalue' : t.iterate.value = program.problem.objective t.iterate.point :=
    (balanced_of_head hsymmetric hseparated h' ht).value
  have hgradient : (program.problem.gradient s.iterate.point).get =
      program.problem.weighted s.iterate.workspace.label s.iterate.workspace.dual
        s.iterate.workspace.count := hbalanced.gradient
  rw [hvalue, hvalue']
  refine (objective_le_of_gradient hsymmetric (columns_of_course hsymmetric h).factored.inverse
    ?_).1
  rw [hgradient]
  apply Problem.dot_weighted_nonneg
  intro k hk c hc
  -- what is active in `s` has a slot in `t`, so both points are on it
  obtain ⟨k', hk', hname⟩ : ∃ k' < t.iterate.workspace.count,
      t.iterate.workspace.label k' = s.iterate.workspace.label k := by
    rcases Nat.lt_or_ge k program.equalityCount with hlt | hge
    · exact ⟨k, lt_of_lt_of_le hlt hseating'.met_le,
        (hseating'.equality k hlt).trans (hseating.equality k hlt).symm⟩
    · obtain ⟨i, hi, hactive⟩ := hseating.inequality k hge hk
      obtain ⟨k', -, hk', hki⟩ := hseating'.complete i (hsubset i hactive)
      exact ⟨k', hk', hki.trans hi.symm⟩
  have hzero := slack_eq_zero_of_course hsymmetric hseparated hapart h hk hc
  rw [← hname] at hc
  have hzero' := slack_eq_zero_of_course hsymmetric hseparated hapart h' hk' hc
  rw [hzero, hzero', sub_zero, mul_zero]

end Separated

/-- The value rises from each head to every later one. -/
theorem value_lt_of_follows (hsymmetric : program.problem.quadratic.IsSymmetric)
    (hapart : program.StepsApart limit buffers) (h : program.Course limit buffers history s)
    (hs : s.phase = .head) (ht : t.phase = .head) (hlater : program.Follows limit s t)
    (hne : s ≠ t) : s.iterate.value < t.iterate.value := by
  obtain ⟨later, hlater⟩ := hlater
  cases hlater with
  | start => exact absurd rfl hne
  | @next later u _ hu hstep =>
    have hpast := hu.past_equalities fun i hi => by cases hs.symm.trans hi
    obtain ⟨L, workspace, hfactor, hroom, hcourse⟩ := h
    have hcolumns := columns_origin hsymmetric hfactor workspace
    have hstanding := Machine.standing_start program.problem program.tolerance
      (Triangular.inverseLower L) (program.problem.unconstrainedPoint L) workspace
    have hmiddle := hcourse.trans hu
    have hsecured : s.iterate.value ≤ u.securedValue := by
      rw [← Machine.securedValue_of_head hs]
      exact Machine.securedValue_le_of_course rfl hstanding hcolumns hcourse hu
    have hu' := Machine.standing_of_course hstanding hmiddle
    have hnow := Machine.columns_of_course rfl hstanding hcolumns hmiddle
    have hholds := (Machine.upkeep_ascent rfl hstanding hcolumns).holds rfl hstanding hmiddle
    have hsteps := hapart _ _ _ ⟨L, workspace, hfactor, hroom, hmiddle⟩
    cases Machine.leads_of_step hstep with
    | met => cases ht
    | allMet => exact absurd rfl (hpast _)
    | begun => cases ht
    | chosen => cases ht
    | dropped => cases ht
    | added hreached =>
      have hrise := Machine.value_lt_of_reached hsteps hu' hnow hholds.1.1 hreached
      exact (hsecured.trans hholds.1.2).trans_lt hrise
    | undone => cases ht

/-! ## Counting the heads -/

section Separated

variable (hsymmetric : program.problem.quadratic.IsSymmetric)
  (hseparated : program.Separated limit buffers) (hapart : program.StepsApart limit buffers)
include hsymmetric hseparated hapart

/-- No two heads have the same active inequalities. -/
theorem head_unique (h : program.Course limit buffers history s) (hs : s.phase = .head)
    (h' : program.Course limit buffers history' t) (ht : t.phase = .head)
    (hsame : s.iterate.isActive = t.iterate.isActive) : s = t := by
  by_contra hne
  rcases follows_or_follows h h' with hlater | hlater
  · refine absurd (value_lt_of_follows hsymmetric hapart h hs ht hlater hne) (not_lt.mpr ?_)
    exact value_le_of_subset hsymmetric hseparated hapart h' ht h hs fun i hi => by rwa [hsame]
  · refine absurd (value_lt_of_follows hsymmetric hapart h' ht hs hlater (Ne.symm hne))
      (not_lt.mpr ?_)
    exact value_le_of_subset hsymmetric hseparated hapart h hs h' ht fun i hi => by rwa [← hsame]

/-- Heads with different active sets are no more than there are sets of inequalities. -/
theorem le_of_heads {count : Nat}
    (hheads : ∀ k < count, ∃ (history : List (Admission ℝ program.dimension slots
      program.inequalityCount))
      (head : Machine ℝ program.dimension slots program.inequalityCount),
      program.Course limit buffers history head ∧ head.phase = .head ∧ head.iterations = k) :
    count ≤ 2 ^ program.inequalityCount := by
  choose histories heads hcourses hphases hcounted using hheads
  let flags (k : Fin count) : Fin program.inequalityCount → Bool :=
    (heads k k.isLt).iterate.isActive.get
  have hinjective : Function.Injective flags := by
    intro j k hjk
    have hhead := head_unique hsymmetric hseparated hapart (hcourses j j.isLt) (hphases j j.isLt)
      (hcourses k k.isLt) (hphases k k.isLt) (Vec.ext_get fun i => congrFun hjk i)
    have hsame := congrArg Machine.iterations hhead
    rw [hcounted, hcounted] at hsame
    exact Fin.ext hsame
  have hcard := Fintype.card_le_of_injective flags hinjective
  rwa [Fintype.card_fin, Fintype.card_fun, Fintype.card_bool, Fintype.card_fin] at hcard

/-- A solve begins at most as many iterations as there are sets of inequalities, and fewer by the
time it is at a head. -/
theorem iterations_le (h : program.Course limit buffers history s) :
    s.iterations ≤ 2 ^ program.inequalityCount ∧
      (s.phase = .head → s.iterations < 2 ^ program.inequalityCount) := by
  refine ⟨le_of_heads hsymmetric hseparated hapart fun k hk => exists_head h hk, ?_⟩
  intro hs
  -- the present head is one more
  have hheads : ∀ k < s.iterations + 1,
      ∃ (history : List (Admission ℝ program.dimension slots program.inequalityCount))
        (head : Machine ℝ program.dimension slots program.inequalityCount),
        program.Course limit buffers history head ∧ head.phase = .head ∧ head.iterations = k := by
    intro k hk
    rcases Nat.lt_succ_iff_lt_or_eq.mp hk with hlt | rfl
    · exact exists_head h hlt
    · exact ⟨history, s, h, hs, rfl⟩
  exact le_of_heads hsymmetric hseparated hapart hheads

end Separated

/-- Once the equalities are met a solve does not fail. -/
theorem step_ne_fail (hsymmetric : program.problem.quadratic.IsSymmetric)
    (h : program.Course limit buffers history s) (hpast : ∀ i, s.phase ≠ .equality i)
    {fault : Fault} {s' : Machine ℝ program.dimension slots program.inequalityCount} :
    program.step limit s ≠ .fail fault s' := by
  intro hfail
  have hstanding := standing_of_course h
  have hnow := columns_of_course hsymmetric h
  obtain ⟨L, workspace, -, hroom, -⟩ := h
  obtain ⟨it, phase, iterations, evaluations⟩ := s
  cases phase with
  | equality i => exact hpast i rfl
  | head =>
    simp only [step, Machine.step, Machine.headStep] at hfail
    split at hfail
    · cases hfail
    · split at hfail <;> cases hfail
  | select excluded => exact Machine.selectStep_ne_fail hstanding (room_le hroom) hfail
  | pass candidate excluded fresh =>
    obtain ⟨it', hpass⟩ := Machine.failed_of_passStep hstanding hfail
    exact Machine.pass_ne_failed hstanding hnow hpass

/-- A solve that gets past the equalities has an answer. -/
theorem exists_answer_of_past (hsymmetric : program.problem.quadratic.IsSymmetric)
    (h : program.Course limit buffers history s) (hpast : ∀ i, s.phase ≠ .equality i)
    {guess : Option (Guess ℝ)} {L : Mat ℝ program.dimension program.dimension}
    (hprepare : program.prepare guess limit = .ok L) :
    ∃ answer, (program.solve guess limit buffers).outcome = .ok answer := by
  by_cases hconstraints : program.constraintCount = 0
  · simp only [solve, hprepare, if_pos hconstraints]
    exact ⟨_, rfl⟩
  · obtain ⟨later, last, hlater, hend⟩ :=
      Machine.exists_course_of_run program.problem limit.toNat program.tolerance s
    have hlast : program.Course limit buffers (later ++ history) last := h.trans hlater
    rcases hend with ⟨status, final, hstop, -⟩ | ⟨fault, final, hfail, -⟩
    · obtain ⟨answer, hanswer, -⟩ := exists_answer_of_course hprepare hconstraints hlast hstop
      exact ⟨answer, hanswer⟩
    · exact absurd hfail (step_ne_fail hsymmetric hlast (hlater.past_equalities hpast))

/-- Convergence without the limit on the iterations, for a separated run whose compared steps are
equal or apart. The value rises from each head to every later one, no two heads have the same
active inequalities, and a solve that gets past the equalities has an answer. It has begun at most
as many iterations as there are sets of inequalities; so it does not end at a limit that is no
smaller. -/
theorem convergence_of_solve (hsymmetric : program.problem.quadratic.IsSymmetric)
    (hseparated : program.Separated limit buffers) (hapart : program.StepsApart limit buffers) :
    (∀ (slots : Nat)
      (history history' : List (Admission ℝ program.dimension slots program.inequalityCount))
      (s t : Machine ℝ program.dimension slots program.inequalityCount),
      program.Course limit buffers history s → s.phase = .head →
        program.Course limit buffers history' t → t.phase = .head →
          (program.Follows limit s t → s ≠ t → s.iterate.value < t.iterate.value) ∧
          ((∀ l, l ∈ s.iterate.workspace.labelsFrom program.equalityCount ↔
            l ∈ t.iterate.workspace.labelsFrom program.equalityCount) → s = t)) ∧
    (∀ (slots : Nat)
      (history : List (Admission ℝ program.dimension slots program.inequalityCount))
      (s : Machine ℝ program.dimension slots program.inequalityCount),
      program.Course limit buffers history s →
        s.iterations ≤ 2 ^ program.inequalityCount ∧
        ((∀ i, s.phase ≠ .equality i) → ∀ guess L, program.prepare guess limit = .ok L →
          ∃ answer, (program.solve guess limit buffers).outcome = .ok answer)) ∧
    ∀ (guess : Option (Guess ℝ))
      (answer : Solution ℝ program.dimension program.equalityCount program.inequalityCount),
      (program.solve guess limit buffers).outcome = .ok answer →
        answer.iterations ≤ 2 ^ program.inequalityCount ∧
          (((2 ^ program.inequalityCount : Nat) : Int) ≤ limit →
            answer.status ≠ .iterationLimit) := by
  refine ⟨?_, ?_, ?_⟩
  · intro slots history history' s t h hs h' ht
    refine ⟨fun hlater hne => value_lt_of_follows hsymmetric hapart h hs ht hlater hne, ?_⟩
    intro hsame
    have hseated := standing_of_course h
    rw [Machine.Standing, hs] at hseated
    have hseated' := standing_of_course h'
    rw [Machine.Standing, ht] at hseated'
    refine head_unique hsymmetric hseparated hapart h hs h' ht (Vec.ext_get fun i => ?_)
    rw [Bool.eq_iff_iff, ← hseated.mem_labelsFrom_iff, ← hseated'.mem_labelsFrom_iff]
    exact hsame _
  · intro slots history s h
    exact ⟨(iterations_le hsymmetric hseparated hapart h).1, fun hpast guess L hprepare =>
      exists_answer_of_past hsymmetric h hpast hprepare⟩
  · intro guess answer hanswer
    rcases unconstrained_or_concludes hanswer with ⟨L, -, hnone, rfl⟩ | ⟨slots, history, last,
      hconcludes⟩
    · exact ⟨Nat.one_le_two_pow, fun _ hlimit => by cases hlimit⟩
    · obtain ⟨hle, hlt⟩ := iterations_le hsymmetric hseparated hapart hconcludes.course
      refine ⟨hconcludes.iterations_eq.trans_le hle, ?_⟩
      intro hlarge hstatus
      obtain ⟨final, hends, -⟩ := hconcludes.ends
      rw [hstatus] at hends
      cases hends with
      | limit hreached =>
        have hfewer := hlt rfl
        dsimp only at hfewer
        omega

/-- Between two bounds that exclude each other the value rises from the first head to the second,
and the solve ends before it has begun more iterations than there are sets of bounds. -/
theorem convergence_of_solve_crossing :
    (crossing 0).problem.quadratic.IsSymmetric ∧ (crossing 0).Separated 100 none ∧
      (crossing 0).StepsApart 100 none ∧
      ∃ (head : Iterate ℝ 1 2 2) (answer : Solution ℝ 1 0 2),
        (crossing 0).Follows 100 (Problem.crossingHead 0) ⟨head, .head, 1, 2⟩ ∧
        (Problem.crossingHead 0).iterate.value < head.value ∧
        ((crossing 0).solve none 100 none).outcome = .ok answer ∧
        answer.iterations ≤ 2 ^ 2 ∧ answer.status ≠ .iterationLimit := by
  have hsymmetric : (crossing 0).problem.quadratic.IsSymmetric := Problem.isSymmetric_crossing 0
  have hseparated := separated_crossing 0 100
  have hapart : (crossing 0).StepsApart 100 none := stepsApart_of_one _ _ _
  obtain ⟨history, head, it, it', fresh, hfollows, hhead, -, -⟩ :=
    exists_run_crossing (le_refl 0) apart_crossing (show (2 : Int) ≤ 100 by decide)
  obtain ⟨answer, hanswer, -, -⟩ :=
    solve_crossing (le_refl 0) apart_crossing (show (2 : Int) ≤ 100 by decide)
  obtain ⟨hheads, -, hread⟩ := convergence_of_solve hsymmetric hseparated hapart
  have hne : Problem.crossingHead 0 ≠ ⟨head, .head, 1, 2⟩ := fun heq => by
    cases congrArg Machine.iterations heq
  obtain ⟨hle, hends⟩ := hread none answer hanswer
  exact ⟨hsymmetric, hseparated, hapart, head, answer, hfollows,
    (hheads _ _ _ _ _ (course_crossingHead 0 100) rfl hhead rfl).1 hfollows hne, hanswer, hle,
    hends (by decide)⟩

end Program

end ActiveSet

import ActiveSet.Proofs.Cholesky
import ActiveSet.Proofs.Answer
/-
  Following a run forwards

  The converse of `Machine.leads_of_step` and `Machine.ends_of_step`: where the
  checks of a transition are passed, the solve goes on as the list says, up to
  the events that it reports. A course that is put together this way is the one
  that the solve takes, and where it stops there is an answer
  (`Program.exists_answer_of_course`): the names in the slots are those of
  constraints, so reading off the multipliers cannot fail.

  The programs that are followed in the modules after this one ask for the
  point nearest to zero (`Program.nearest`). What their solves set out with is
  at the end.
-/

namespace ActiveSet

variable {α : Type} [Scalar α] {n e m slots : Nat}

/-- Where a full step is planned the candidate is reached, and folded in or not. -/
theorem Iterate.exists_reached {P : Problem α n e m} {candidate : Fin m} {it : Iterate α n slots m}
    {c : Constraint α n} {ws ws₁ : Workspace α n slots} {direction : Vector α ws.count} {step : α}
    {accepted : Bool} (hc : c = P.inequalities.get candidate) (hws : ws = it.workspace.aim c.normal)
    (hdirection : ws.dualDirection = .ok direction)
    (hplan : ws.plan direction e (it.slack.get candidate) (ws.curvature c) = .full step)
    (hfold : (ws.shift step direction).fold = (ws₁, accepted)) :
    ∃ it', it.Reached P candidate accepted it' ∧ it'.workspace = ws₁ ∧
      it'.point = Vec.add it.point (Vec.scale step ws.primal) ∧ it'.isActive = it.isActive :=
  ⟨{ it with
      workspace := ws₁
      point := Vec.add it.point (Vec.scale step ws.primal)
      value := it.value + step * ws.curvature c *
        (Scalar.half * step + Vec.extend ws.duals ws.count) },
    ⟨hc, hws, hdirection, hplan, hfold⟩, rfl, rfl, rfl⟩

theorem Iterate.foldIn_of_accepted {it : Iterate α n slots m} {candidate : Fin m} {step : α}
    {ws : Workspace α n slots} (hfold : it.workspace.fold = (ws, true)) :
    it.foldIn candidate step =
      .settled .added ({ it with workspace := ws }.report (.fullStep step candidate)) := by
  rw [foldIn, hfold]

theorem Iterate.foldIn_of_refused {it : Iterate α n slots m} {candidate : Fin m} {step : α}
    {ws : Workspace α n slots} (hfold : it.workspace.fold = (ws, false)) :
    it.foldIn candidate step = .settled .degenerate { it with workspace := ws } := by
  rw [foldIn, hfold]

/-- A pass along a full step whose fold is accepted adds the candidate. -/
theorem Iterate.pass_of_reached {P : Problem α n e m} {candidate : Fin m}
    {it it' : Iterate α n slots m} (h : it.Reached P candidate true it') :
    ∃ events, it.pass P candidate = .settled .added { it' with events } := by
  cases h with
  | @intro c ws ws₁ direction step _ hc hws hdirection hplan hfold =>
    subst hws
    refine ⟨.fullStep step candidate :: it.events, ?_⟩
    rw [pass_of_dualDirection hc hdirection, hplan]
    exact foldIn_of_accepted hfold

/-- A pass along a full step whose fold is refused settles that the candidate is degenerate. -/
theorem Iterate.pass_of_refused {P : Problem α n e m} {candidate : Fin m}
    {it it' : Iterate α n slots m} (h : it.Reached P candidate false it') :
    it.pass P candidate = .settled .degenerate { it' with events := it.events } := by
  cases h with
  | @intro c ws ws₁ direction step _ hc hws hdirection hplan hfold =>
    subst hws
    rw [pass_of_dualDirection hc hdirection, hplan]
    exact foldIn_of_refused hfold

/-- A constraint that has a flag and a slot is taken out. -/
theorem Iterate.drop_of_position {it : Iterate α n slots m} {label : Label} {first p : Nat}
    {i : Fin m} (hlabel : label.position? m = some i)
    (hp : it.workspace.position? label first = some p) (hroom : it.workspace.count ≤ slots) :
    it.drop label first = .ok { it with
      workspace := it.workspace.eraseAt p
      isActive := Vec.set it.isActive i false } := by
  simp only [drop, hlabel, Workspace.delete, hp, if_pos hroom]

/-- A pass that is stopped by a constraint drops it, and another pass follows. -/
theorem Iterate.pass_of_dropped {P : Problem α n e m} {candidate : Fin m}
    {it it' : Iterate α n slots m} (h : it.Dropped P candidate it') :
    it.pass P candidate = .again it' := by
  cases h with
  | @dual c ws direction step label i p hc hws hdirection hplan hlabel hp hroom =>
    subst hws
    rw [pass_of_dualDirection hc hdirection, hplan]
    let aimed : Iterate α n slots m := { it with workspace := it.workspace.aim c.normal }
    have hdrop : ((aimed.report (.dualStep step label)).dualMove step direction).drop label e =
        .ok _ := drop_of_position hlabel hp hroom
    show aimed.dualStep step direction label e = _
    rw [dualStep, hdrop]
    rfl
  | @partway c ws direction step label i p point hc hws hdirection hplan hlabel hp hroom hpoint =>
    subst hws hpoint
    rw [pass_of_dualDirection hc hdirection, hplan]
    let aimed : Iterate α n slots m := { it with workspace := it.workspace.aim c.normal }
    let moved := aimed.move step (aimed.workspace.curvature c) direction
    have hdrop : (moved.report (.partialStep step label)).drop label e = .ok _ :=
      drop_of_position hlabel hp hroom
    show moved.partialStep step label e candidate c = _
    rw [partialStep, hdrop]
    rfl

/-- A pass without a move settles that there is none. -/
theorem Iterate.pass_of_stuck {P : Problem α n e m} {candidate : Fin m}
    {it it' : Iterate α n slots m} (h : it.Stuck P candidate it') :
    it.pass P candidate = .settled .noStep it' := by
  cases h with
  | @intro c ws direction hc hws hdirection hplan =>
    subst hws
    rw [pass_of_dualDirection hc hdirection, hplan]
    rfl

namespace Machine

variable {P : Problem α n e m} {limit : Nat} {tolerance : α} {it it' : Iterate α n slots m}
  {iterations evaluations : Nat}

theorem step_of_met {i : Fin e} (h : it.Met P i it') :
    step P limit tolerance ⟨it, .equality i, iterations, evaluations⟩ =
      .next ⟨it', .equality (i + 1), iterations, evaluations⟩ := by
  cases h with
  | @intro c ws ws₁ ws₂ direction step hc hws hdirection hstep hplace hfold =>
    subst hc hws hstep
    simp only [Machine.step, dif_pos i.isLt, equalityStep, hdirection]
    split
    · next hfailed => cases hplace.symm.trans hfailed
    · next hplaced =>
      cases hplace.symm.trans hplaced
      rw [hfold]
      rfl

theorem step_of_allMet {i : Nat} (h : e ≤ i) :
    step P limit tolerance ⟨it, .equality i, iterations, evaluations⟩ =
      .next ⟨it, .head, iterations, evaluations⟩ := by
  simp [step, Nat.not_lt.mpr h]

theorem step_of_begun (hviolated :
      Scalar.le (Scalar.abs (P.infeasibilityAt it.point)) tolerance = false)
    (hlimit : iterations < limit) :
    step P limit tolerance ⟨it, .head, iterations, evaluations⟩ =
      .next
        ⟨{ it.evaluate P with workspace := it.workspace.save it.point it.value },
          .select (Vector.replicate m false), iterations + 1, evaluations + 1⟩ := by
  have hviolated' : Scalar.le (Scalar.abs (it.evaluate P).infeasibility) tolerance = false :=
    hviolated
  simp only [step, headStep, hviolated', Bool.false_eq_true, if_false,
    if_neg (Nat.not_le.mpr hlimit)]
  rfl

theorem stop_of_near (h : Scalar.le (Scalar.abs (P.infeasibilityAt it.point)) tolerance = true) :
    step P limit tolerance ⟨it, .head, iterations, evaluations⟩ =
      .stop .proper ⟨it.evaluate P, .head, iterations, evaluations + 1⟩ := by
  have h' : Scalar.le (Scalar.abs (it.evaluate P).infeasibility) tolerance = true := h
  simp only [step, headStep, h', if_true]

theorem stop_of_limit
    (hviolated : Scalar.le (Scalar.abs (P.infeasibilityAt it.point)) tolerance = false)
    (hlimit : limit ≤ iterations) :
    ∃ events, step P limit tolerance ⟨it, .head, iterations, evaluations⟩ =
      .stop .iterationLimit
        ⟨{ it.evaluate P with events }, .head, iterations, evaluations + 1⟩ := by
  have hviolated' : Scalar.le (Scalar.abs (it.evaluate P).infeasibility) tolerance = false :=
    hviolated
  simp only [step, headStep, hviolated', Bool.false_eq_true, if_false, if_pos hlimit]
  exact ⟨_, rfl⟩

theorem step_of_chosen {ws : Workspace α n slots} {excluded : Vector Bool m} {candidate : Fin m}
    (hcandidate : it.mostViolated excluded = some candidate)
    (hplace : it.workspace.place (.inequality candidate) 0 = .ok ws) :
    step P limit tolerance ⟨it, .select excluded, iterations, evaluations⟩ =
      .next
        ⟨{ it with
            workspace := ws
            events := .adding iterations candidate (it.slack.get candidate) :: it.events },
          .pass candidate excluded (Iterate.fresh_of_mostViolated hcandidate), iterations,
          evaluations⟩ := by
  simp only [step, selectStep]
  split
  · next hnone => cases hnone.symm.trans hcandidate
  · next chosen hchosen =>
    -- the note in the journal does not touch the workspace
    cases hchosen.symm.trans hcandidate
    have henter : (it.report (.adding iterations candidate (it.slack.get candidate))).enter
        candidate = .ok { it.report (.adding iterations candidate (it.slack.get candidate)) with
          workspace := ws } := by
      show (it.workspace.place (.inequality candidate) 0).map _ = _
      rw [hplace]
      rfl
    rw [henter]
    rfl

theorem stop_of_exhausted {excluded : Vector Bool m}
    (hnone : it.mostViolated excluded = none) (hexcluded : excluded.any id = false) :
    step P limit tolerance ⟨it, .select excluded, iterations, evaluations⟩ =
      .stop .proper ⟨it, .select excluded, iterations, evaluations⟩ := by
  simp only [step, selectStep]
  split
  · rw [hexcluded]
    rfl
  · next hchosen => cases hnone.symm.trans hchosen

theorem stop_of_noStep {excluded : Vector Bool m} {candidate : Fin m}
    {fresh : excluded.get candidate = false} (h : it.pass P candidate = .settled .noStep it') :
    step P limit tolerance ⟨it, .pass candidate excluded fresh, iterations, evaluations⟩ =
      .stop .roundOff ⟨it'.report (.noStep candidate), .pass candidate excluded fresh, iterations,
        evaluations⟩ := by
  simp only [step, passStep, h]

theorem stop_of_degenerate {excluded : Vector Bool m}
    (hnone : it.mostViolated excluded = none) (hexcluded : excluded.any id = true) :
    ∃ events, step P limit tolerance ⟨it, .select excluded, iterations, evaluations⟩ =
      .stop .roundOff ⟨{ it with events }, .select excluded, iterations, evaluations⟩ := by
  simp only [step, selectStep]
  split
  · rw [hexcluded]
    exact ⟨_, rfl⟩
  · next hchosen => cases hnone.symm.trans hchosen

theorem step_of_refused {excluded isActive : Vector Bool m} {candidate : Fin m}
    {fresh : excluded.get candidate = false} (h : it.Reached P candidate false it')
    (hflags : Iterate.flags m (it'.undo.workspace.labelsFrom e) = .ok isActive) :
    ∃ events, step P limit tolerance
        ⟨it, .pass candidate excluded fresh, iterations, evaluations⟩ =
      .next
        ⟨{ it'.undo with isActive, events }.evaluate P, .select (Vec.set excluded candidate true),
          iterations, evaluations⟩ := by
  refine ⟨.degenerate candidate :: it.events, ?_⟩
  simp only [step, passStep, Iterate.pass_of_refused h]
  split
  · next hfailed => cases hflags.symm.trans hfailed
  · next hread =>
    cases hflags.symm.trans hread
    rfl

theorem step_of_reached {excluded : Vector Bool m} {candidate : Fin m}
    {fresh : excluded.get candidate = false} (h : it.Reached P candidate true it') :
    ∃ events, step P limit tolerance
        ⟨it, .pass candidate excluded fresh, iterations, evaluations⟩ =
      .next
        ⟨{ it' with isActive := Vec.set it'.isActive candidate true, events }, .head, iterations,
          evaluations⟩ := by
  obtain ⟨events, hpass⟩ := Iterate.pass_of_reached h
  refine ⟨events, ?_⟩
  simp only [step, passStep, hpass]

theorem step_of_dropped {excluded : Vector Bool m} {candidate : Fin m}
    {fresh : excluded.get candidate = false} (h : it.Dropped P candidate it') :
    step P limit tolerance ⟨it, .pass candidate excluded fresh, iterations, evaluations⟩ =
      .next ⟨it', .pass candidate excluded fresh, iterations, evaluations⟩ := by
  simp only [step, passStep, Iterate.pass_of_dropped h]

end Machine

/-! ## The choice of a candidate -/

/-- Nothing is chosen exactly if there is no candidate. -/
theorem Iterate.mostViolated_eq_none {it : Iterate α n slots m} {excluded : Vector Bool m} :
    it.mostViolated excluded = none ↔ ∀ i, it.isCandidate excluded i = false := by
  have hnil : it.mostViolated excluded = none ↔
      (List.finRange m).filter (it.isCandidate excluded) = [] := by
    unfold mostViolated leastSlack
    split <;> simp_all
  simp [hnil, List.filter_eq_nil_iff]

/-- Who is a candidate when an iteration begins. -/
theorem Iterate.isCandidate_replicate (it : Iterate ℝ n slots m) (i : Fin m) :
    it.isCandidate (Vector.replicate m false) i = true ↔
      it.isActive.get i = false ∧ it.slack.get i < 0 := by
  simp [isCandidate, Vec.get_eq_getElem]

/-- What is chosen has the least slack. -/
theorem Iterate.slack_le_of_leastSlack {it : Iterate ℝ n slots m} {l : List (Fin m)} {i k : Fin m}
    (h : it.leastSlack l = some i) (hk : k ∈ l) : it.slack.get i ≤ it.slack.get k := by
  have hfold (l : List (Fin m)) (b : Fin m) : ∀ k ∈ b :: l,
      it.slack.get (l.foldl
        (fun b k => if Scalar.lt (it.slack.get k) (it.slack.get b) then k else b) b) ≤
          it.slack.get k := by
    induction l generalizing b with
    | nil => simp
    | cons j l ih =>
      intro k hk
      rw [List.foldl_cons]
      split
      · next hlt =>
        have hlt : it.slack.get j < it.slack.get b := of_decide_eq_true hlt
        rcases List.mem_cons.mp hk with rfl | hk
        · exact (ih j j List.mem_cons_self).trans hlt.le
        · exact ih j k hk
      · next hge =>
        have hge : it.slack.get b ≤ it.slack.get j := not_lt.mp fun hlt => hge (decide_eq_true hlt)
        rcases List.mem_cons.mp hk with rfl | hk
        · exact ih k k List.mem_cons_self
        · rcases List.mem_cons.mp hk with rfl | hk
          · exact (ih b b List.mem_cons_self).trans hge
          · exact ih b k (List.mem_cons_of_mem _ hk)
  cases l with
  | nil => cases h
  | cons b l =>
    simp only [leastSlack, Option.some.injEq] at h
    subst h
    exact hfold l b k hk

/-- A candidate that is more violated than every other one is chosen. -/
theorem Iterate.mostViolated_eq_some {it : Iterate ℝ n slots m} {excluded : Vector Bool m}
    {i : Fin m} (hi : it.isCandidate excluded i = true)
    (hleast : ∀ k, it.isCandidate excluded k = true → k ≠ i → it.slack.get i < it.slack.get k) :
    it.mostViolated excluded = some i := by
  have hmem : i ∈ (List.finRange m).filter (it.isCandidate excluded) :=
    List.mem_filter.mpr ⟨List.mem_finRange i, hi⟩
  cases hchosen : it.mostViolated excluded with
  | none =>
    rw [mostViolated_eq_none.mp hchosen i] at hi
    cases hi
  | some k =>
    by_cases hki : k = i
    · rw [hki]
    · have hle := slack_le_of_leastSlack hchosen hmem
      exact absurd (hleast k (isCandidate_of_mostViolated hchosen) hki) (not_lt.mpr hle)

namespace Machine

variable {P : Problem α n e m} {limit : Nat} {tolerance : α} {start : Machine α n slots m}
  {it it' : Iterate α n slots m} {history : List (Admission α n slots m)} {candidate : Fin m}
  {iterations evaluations : Nat}

/-- An iteration begins with the most violated candidate. -/
theorem exists_begun
    (hviolated : Scalar.le (Scalar.abs (P.infeasibilityAt it.point)) tolerance = false)
    (hlimit : iterations < limit) (hroom : it.workspace.count ≤ slots)
    (hcandidate : (it.evaluate P).mostViolated (Vector.replicate m false) = some candidate) :
    ∃ (begun : Iterate α n slots m) (ws : Workspace α n slots) (events : List (Event α))
      (fresh : (Vector.replicate m false).get candidate = false),
      (it.workspace.save it.point it.value).place (.inequality candidate) 0 = .ok ws ∧
      step P limit tolerance ⟨it, .head, iterations, evaluations⟩ =
        .next ⟨begun, .select (Vector.replicate m false), iterations + 1, evaluations + 1⟩ ∧
      step P limit tolerance
          ⟨begun, .select (Vector.replicate m false), iterations + 1, evaluations + 1⟩ =
        .next ⟨{ it.evaluate P with workspace := ws, events },
          .pass candidate (Vector.replicate m false) fresh, iterations + 1, evaluations + 1⟩ := by
  obtain ⟨ws, hws⟩ : ∃ ws, (it.workspace.save it.point it.value).place (.inequality candidate) 0 =
      .ok ws := ⟨_, dif_pos (Nat.lt_succ_of_le hroom)⟩
  have hchosen : Iterate.mostViolated
      { it.evaluate P with workspace := it.workspace.save it.point it.value }
      (Vector.replicate m false) = some candidate := hcandidate
  exact ⟨_, ws, _, _, hws, step_of_begun hviolated hlimit, step_of_chosen hchosen hws⟩

theorem Course.to_pass
    (h : Course P limit tolerance start history ⟨it, .head, iterations, evaluations⟩)
    (hviolated : Scalar.le (Scalar.abs (P.infeasibilityAt it.point)) tolerance = false)
    (hlimit : iterations < limit) (hroom : it.workspace.count ≤ slots)
    (hcandidate : (it.evaluate P).mostViolated (Vector.replicate m false) = some candidate) :
    ∃ ws events fresh,
      (it.workspace.save it.point it.value).place (.inequality candidate) 0 = .ok ws ∧
      Course P limit tolerance start history
        ⟨{ it.evaluate P with workspace := ws, events },
          .pass candidate (Vector.replicate m false) fresh, iterations + 1, evaluations + 1⟩ := by
  obtain ⟨begun, ws, events, fresh, hws, hbegun, hchosen⟩ :=
    exists_begun hviolated hlimit hroom hcandidate
  exact ⟨ws, events, fresh, hws, (h.next hbegun).next hchosen⟩

/-- An iteration whose candidate is reached without a drop ends with it in the active set. -/
theorem Course.to_head {excluded : Vector Bool m} {fresh : excluded.get candidate = false}
    (h : Course P limit tolerance start history
      ⟨it, .pass candidate excluded fresh, iterations, evaluations⟩)
    (hreached : it.Reached P candidate true it') :
    ∃ history' events, Course P limit tolerance start history'
      ⟨{ it' with isActive := Vec.set it'.isActive candidate true, events }, .head, iterations,
        evaluations⟩ := by
  obtain ⟨events, hstep⟩ := step_of_reached hreached
  exact ⟨_, events, h.next hstep⟩

end Machine

/-! ## The answer -/

omit [Scalar α] in
/-- The multipliers of constraints can be written. -/
theorem Multipliers.exists_ofMembers (P : Problem α n e m) {members : List (Label × α)}
    (h : ∀ member ∈ members, ∃ c, P.constraint? member.1 = some c) (l : Multipliers α e m) :
    ∃ l', members.foldlM record l = .ok l' := by
  induction members generalizing l with
  | nil => exact ⟨l, rfl⟩
  | cons member members ih =>
    obtain ⟨c, hc⟩ := h member List.mem_cons_self
    have hrecord : ∃ l₁, l.record member = .ok l₁ := by
      obtain ⟨name, u⟩ := member
      cases name with
      | equality i =>
        simp only [Problem.constraint?] at hc
        split at hc
        · next hi => exact ⟨_, dif_pos hi⟩
        · cases hc
      | inequality i =>
        simp only [Problem.constraint?] at hc
        split at hc
        · next hi => exact ⟨_, dif_pos hi⟩
        · cases hc
    obtain ⟨l₁, hl₁⟩ := hrecord
    rw [List.foldlM_cons, hl₁]
    exact ih (fun other hother => h other (List.mem_cons_of_mem _ hother)) l₁

/-- An answer can be read off every state in which a solve stops. -/
theorem Machine.Ends.exists_answer {P : Problem α n e m} {limit : Nat} {tolerance : α}
    {s s' : Machine α n slots m} {status : Status} (h : Ends P limit tolerance s status s')
    (hs : Standing P tolerance s) : ∃ answer, Solution.ofMachine P status s' = .ok answer := by
  obtain ⟨hcount, hseating⟩ := h.seating hs
  have hmembers : s'.iterate.workspace.members = s.iterate.workspace.members := by
    have hread (it : Iterate α n slots m) : it.workspace.members =
        (it.snapshot.active.toList.zip it.snapshot.duals.toList).take it.snapshot.count := rfl
    rw [hread, hread, h.snapshot]
  obtain ⟨l, hl⟩ : ∃ l, Multipliers.ofMembers (e := e) (m := m) s'.iterate.workspace.members =
      .ok l := by
    refine Multipliers.exists_ofMembers P ?_ _
    intro member hmember
    rw [hmembers, Workspace.members_eq hcount] at hmember
    obtain ⟨k, hk, rfl⟩ := List.mem_map.mp hmember
    exact hseating.exists_constraint P (le_refl _) (List.mem_range.mp hk)
  unfold Solution.ofMachine
  simp only [hl]
  exact ⟨_, rfl⟩

section Course

variable {P : Problem α n e m} {L : Mat α n n} {limit : Nat} {workspace : Workspace α n slots}
  {history : List (Admission α n slots m)} {last final : Machine α n slots m}
  (hpivot : Triangular.hasZeroPivot L = false)
  (hcourse : Machine.Course P limit (P.tolerance (Triangular.inverseLower L).trace)
    (P.start (Triangular.inverseLower L) (P.unconstrainedPoint L) workspace) history last)
include hpivot hcourse

/-- The answer is read off where the course stops. -/
theorem Problem.outcome_of_course {status : Status}
    (hstop : last.step P limit (P.tolerance (Triangular.inverseLower L).trace) =
      .stop status final) :
    (P.solveFrom L limit workspace).outcome = Solution.ofMachine P status final := by
  have hrun := hcourse.run_eq.trans (Machine.run_of_stop hstop)
  simp only [solveFrom, hpivot, Bool.false_eq_true, if_false, hrun]
  rfl

/-- A course that ends in a fault has that as its outcome. -/
theorem Problem.outcome_of_failed {fault : Fault}
    (hfail : last.step P limit (P.tolerance (Triangular.inverseLower L).trace) =
      .fail fault final) : (P.solveFrom L limit workspace).outcome = .error fault := by
  have hrun := hcourse.run_eq.trans (Machine.run_of_fail hfail)
  simp only [solveFrom, hpivot, Bool.false_eq_true, if_false, hrun]
  rfl

end Course

theorem hasZeroPivot_of_factor {A L : Mat ℝ n n} (h : Dense.factor A = .ok L) :
    Triangular.hasZeroPivot L = false := Triangular.hasZeroPivot_eq_false.mpr fun i =>
  (Cholesky.diagonal_factor?_pos (Cholesky.factor_eq_ok.mp h) i).ne'

namespace Program

/-- A course that has stopped is the one behind the answer of the solve, unless a pivot of the
factor is zero. -/
theorem exists_answer_of_pivots {program : Program α} {limit : Int} {buffers : Option (Buffers α)}
    {history : List (Admission α program.dimension slots program.inequalityCount)}
    {last final : Machine α program.dimension slots program.inequalityCount} {status : Status}
    {guess : Option (Guess α)} {L : Mat α program.dimension program.dimension}
    (hpivot : Triangular.hasZeroPivot L = false) (hprepare : program.prepare guess limit = .ok L)
    (hconstraints : program.constraintCount ≠ 0)
    (hcourse : program.Course limit buffers history last)
    (hstop : program.step limit last = .stop status final) :
    ∃ answer, (program.solve guess limit buffers).outcome = .ok answer ∧ answer.status = status ∧
      program.Concludes limit buffers answer history last := by
  obtain ⟨answer, hanswer⟩ :=
    (Machine.ends_of_step hstop).exists_answer (standing_of_course hcourse)
  obtain ⟨rfl, -⟩ := Solution.ofMachine_ok hanswer
  refine ⟨answer, ?_, rfl, hcourse, final, hstop, hanswer⟩
  obtain ⟨L', workspace, hfactor, hroom, hmachine⟩ := hcourse
  obtain rfl : L' = L := Except.ok.inj (hfactor.symm.trans (factor_of_prepare hprepare))
  rw [step, tolerance_eq hfactor] at hstop
  rw [tolerance_eq hfactor] at hmachine
  rw [outcome_of_room hprepare hconstraints hroom, ← hanswer]
  exact Problem.outcome_of_course hpivot hmachine hstop

variable {program : Program ℝ} {limit : Int} {buffers : Option (Buffers ℝ)}
  {history : List (Admission ℝ program.dimension slots program.inequalityCount)}
  {last final : Machine ℝ program.dimension slots program.inequalityCount} {status : Status}
  {guess : Option (Guess ℝ)} {L : Mat ℝ program.dimension program.dimension}
  (hprepare : program.prepare guess limit = .ok L) (hconstraints : program.constraintCount ≠ 0)
  (hcourse : program.Course limit buffers history last)
include hprepare hconstraints hcourse

/-- Over the reals no pivot is zero. -/
theorem exists_answer_of_course (hstop : program.step limit last = .stop status final) :
    ∃ answer, (program.solve guess limit buffers).outcome = .ok answer ∧ answer.status = status ∧
      program.Concludes limit buffers answer history last :=
  exists_answer_of_pivots (hasZeroPivot_of_factor (factor_of_prepare hprepare)) hprepare
    hconstraints hcourse hstop

/-- A course that ends in a fault is the one behind the fault of the solve. -/
theorem outcome_of_failed {fault : Fault} (hfail : program.step limit last = .fail fault final) :
    (program.solve guess limit buffers).outcome = .error fault := by
  obtain ⟨L', workspace, hfactor, hroom, hmachine⟩ := hcourse
  obtain rfl : L' = L := Except.ok.inj (hfactor.symm.trans (factor_of_prepare hprepare))
  rw [step, tolerance_eq hfactor] at hfail
  rw [tolerance_eq hfactor] at hmachine
  rw [outcome_of_room hprepare hconstraints hroom]
  exact Problem.outcome_of_failed (hasZeroPivot_of_factor hfactor) hmachine hfail

end Program

/-! ## The point nearest to zero

The scale `p` of the objective does not change which point that is, but the basis of a solve has the
entry `p`, and what a solve compares with the fixed threshold grows or shrinks with it. -/

/-- The problem `|x|² / (2 p²) → min` under the given constraints. -/
noncomputable def Problem.nearest {n e m : Nat} (p : ℝ) (E : Vector (Constraint ℝ n) e)
    (I : Vector (Constraint ℝ n) m) : Problem ℝ n e m where
  quadratic := Mat.diagonal fun _ => 1 / p * (1 / p)
  linear := Vec.zero n
  equalities := E
  inequalities := I

/-- The problem as a program. -/
noncomputable def Program.nearest {n e m : Nat} (p : ℝ) (E : Vector (Constraint ℝ n) e)
    (I : Vector (Constraint ℝ n) m) : Program ℝ := ⟨Problem.nearest p E I⟩

section Nearest

variable {p : ℝ} (E : Vector (Constraint ℝ n) e) (I : Vector (Constraint ℝ n) m)

namespace Problem

theorem isSymmetric_nearest : (nearest p E I).quadratic.IsSymmetric := Mat.isSymmetric_diagonal _

theorem factor_nearest (hp : 0 < p) :
    Dense.factor (nearest p E I).quadratic = .ok (Mat.diagonal fun _ => 1 / p) :=
  Cholesky.factor_eq_ok.mpr (Cholesky.factor?_diagonal fun _ => one_div_pos.mpr hp)

/-- The state that a solve sets out from. -/
noncomputable def origin (p : ℝ) (E : Vector (Constraint ℝ n) e)
    (I : Vector (Constraint ℝ n) m) : Machine ℝ n (e + m) m :=
  (nearest p E I).start (Triangular.inverseLower (Mat.diagonal fun _ => 1 / p))
    ((nearest p E I).unconstrainedPoint (Mat.diagonal fun _ => 1 / p)) (Workspace.blank n (e + m))

theorem basis_origin (hp : 0 < p) :
    (origin p E I).iterate.workspace.basis.toMatrix = Matrix.diagonal fun _ => p := by
  show (Triangular.inverseLower (Mat.diagonal fun _ => 1 / p)).transpose.toMatrix = _
  rw [Cholesky.inverseLower_diagonal fun _ => one_div_ne_zero hp.ne', Mat.toMatrix_transpose,
    Mat.toMatrix_diagonal, Matrix.diagonal_transpose]
  simp only [one_div_one_div]

theorem point_origin (hp : 0 < p) : (origin p E I).iterate.point.get = 0 := by
  show ((nearest p E I).unconstrainedPoint _).get = 0
  rw [unconstrainedPoint, Vec.get_neg, neg_eq_zero]
  refine Cholesky.solve_zero (isSymmetric_nearest E I)
    (Cholesky.factor?_diagonal fun _ => one_div_pos.mpr hp) ?_
  funext i
  exact Vec.get_zero i

end Problem

namespace Program

/-- The tolerance shrinks as the basis grows. -/
theorem tolerance_nearest (hp : 0 < p) :
    (nearest p E I).tolerance = 100 * m * Scalar.epsilon * (n * n) / p := by
  have htrace : (Mat.diagonal fun _ : Fin n => 1 / p * (1 / p)).trace = n * (1 / p * (1 / p)) := by
    rw [Mat.trace_eq, Mat.toMatrix_diagonal, Matrix.trace_diagonal]
    simp
  have hinverse : (Triangular.inverseLower (Mat.diagonal fun _ : Fin n => 1 / p)).trace =
      n * p := by
    rw [Cholesky.inverseLower_diagonal fun _ => one_div_ne_zero hp.ne', Mat.trace_eq,
      Mat.toMatrix_diagonal, Matrix.trace_diagonal]
    simp
  rw [tolerance_eq (Problem.factor_nearest E I hp)]
  show ((100 : Nat) : ℝ) * (m : ℝ) * Scalar.epsilon *
    (Mat.diagonal fun _ : Fin n => 1 / p * (1 / p)).trace *
      (Triangular.inverseLower (Mat.diagonal fun _ : Fin n => 1 / p)).trace = _
  rw [htrace, hinverse]
  have hne := hp.ne'
  field_simp
  push_cast
  ring

theorem course_nearest (hp : 0 < p) {limit : Int} {history : List (Admission ℝ n (e + m) m)}
    {s : Machine ℝ n (e + m) m}
    (h : Machine.Course (Problem.nearest p E I) limit.toNat (nearest p E I).tolerance
      (Problem.origin p E I) history s) : (nearest p E I).Course limit none history s :=
  ⟨_, _, Problem.factor_nearest E I hp, rfl, h⟩

/-- Where the course of the solve stops there is an answer. -/
theorem exists_answer_nearest (hp : 0 < p) (hconstraints : e + m ≠ 0) {limit : Int}
    (hlimit : 0 ≤ limit) {history : List (Admission ℝ n (e + m) m)}
    {last final : Machine ℝ n (e + m) m} {status : Status}
    (hcourse : (nearest p E I).Course limit none history last)
    (hstop : last.step (Problem.nearest p E I) limit.toNat (nearest p E I).tolerance =
      .stop status final) :
    ∃ answer : Solution ℝ n e m, ((nearest p E I).solve none limit none).outcome = .ok answer ∧
      answer.status = status ∧ (nearest p E I).Concludes limit none answer history last := by
  have hprepare : (nearest p E I).prepare none limit = .ok (Mat.diagonal fun _ => 1 / p) := by
    simp only [prepare, if_neg (not_lt.mpr hlimit)]
    exact Problem.factor_nearest E I hp
  exact exists_answer_of_course hprepare hconstraints hcourse hstop

/-- Where the end of a path is the end of the solve, the solve passes through the states of the path
only. -/
theorem forall_nearest (hp : 0 < p) {limit : Int} {Q : Machine ℝ n (e + m) m → Prop}
    {last : Machine ℝ n (e + m) m}
    (hpath : Machine.Path (Problem.nearest p E I) limit.toNat (nearest p E I).tolerance Q
      (Problem.origin p E I) last) (hQ : Q last)
    (hlast : last.IsLast (Problem.nearest p E I) limit.toNat (nearest p E I).tolerance)
    {history : List (Admission ℝ n (e + m) m)} {s : Machine ℝ n (e + m) m}
    (h : (nearest p E I).Course limit none history s) : Q s := by
  obtain ⟨L, workspace, hfactor, hroom, hcourse⟩ := h
  obtain rfl : Mat.diagonal (fun _ => 1 / p) = L :=
    Except.ok.inj ((Problem.factor_nearest E I hp).symm.trans hfactor)
  cases hroom
  exact hpath.forall_course hQ hlast hcourse

end Program

end Nearest

end ActiveSet

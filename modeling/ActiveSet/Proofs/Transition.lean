import ActiveSet.Proofs.Course
/-
  What a transition can do

  `Machine.Leads` lists the ways in which one state of a solve leads to the
  next, each with the checks that were passed: an equality is met, an
  iteration begins, a candidate is chosen, a pass drops a constraint or adds
  the candidate, a degenerate candidate is undone. `leads_of_step` says that
  the list is complete, `ends_of_step` says the same of the ways to end. Every
  invariant of a solve is proved by cases on these lists, and none looks into
  `Machine.step`. A pass is the move that is planned, carried out by
  `Iterate.act`, unless the triangle is singular.
-/

namespace ActiveSet

variable {α : Type} [Scalar α] {n e m slots : Nat}

/-- How far the value of a constraint's linear form rises per unit of a step. -/
def Workspace.curvature (ws : Workspace α n slots) (c : Constraint α n) : α :=
  Vec.dot ws.primal c.normal

/-- Moves all dual values, the candidate's among them. -/
def Workspace.shift (ws : Workspace α n slots) (step : α) (direction : Vector α ws.count) :
    Workspace α n slots :=
  (ws.relax step direction).raise step

namespace Iterate

/-- The step onto an equality: none where the point cannot move. -/
def equalityStep (ws : Workspace α n slots) (c : Constraint α n) (point : Vector α n) : α :=
  if ws.canMove then -(c.slack point) / ws.curvature c else 0

/-- An equality is met and folded in. -/
inductive Met (P : Problem α n e m) (i : Fin e) (it : Iterate α n slots m) :
    Iterate α n slots m → Prop
  | intro {c : Constraint α n} {ws ws₁ ws₂ : Workspace α n slots} {direction : Vector α ws.count}
      {step : α} (hc : c = P.equalities.get i) (hws : ws = it.workspace.aim c.normal)
      (hdirection : ws.dualDirection = .ok direction) (hstep : step = equalityStep ws c it.point)
      (hplace : (ws.relax step direction).place (.equality i) step = .ok ws₁)
      (hfold : ws₁.fold = (ws₂, true)) :
      Met P i it
        { it with
          workspace := ws₂
          point := Vec.add it.point (Vec.scale step ws.primal)
          value := it.value + Scalar.half * step * step * ws.curvature c }

/-- A pass moves along, or moves the dual values alone, and drops the constraint that stops it. -/
inductive Dropped (P : Problem α n e m) (candidate : Fin m) (it : Iterate α n slots m) :
    Iterate α n slots m → Prop
  | dual {c : Constraint α n} {ws : Workspace α n slots} {direction : Vector α ws.count}
      {step : α} {label : Label} {i : Fin m} {p : Nat} (hc : c = P.inequalities.get candidate)
      (hws : ws = it.workspace.aim c.normal) (hdirection : ws.dualDirection = .ok direction)
      (hplan : ws.plan direction e (it.slack.get candidate) (ws.curvature c) = .dual step label)
      (hlabel : label.position? m = some i)
      (hp : (ws.shift step direction).position? label e = some p) (hroom : ws.count ≤ slots) :
      Dropped P candidate it
        { it with
          workspace := (ws.shift step direction).eraseAt p
          isActive := Vec.set it.isActive i false
          events := .dualStep step label :: it.events }
  | partway {c : Constraint α n} {ws : Workspace α n slots} {direction : Vector α ws.count}
      {step : α} {label : Label} {i : Fin m} {p : Nat} {point : Vector α n}
      (hc : c = P.inequalities.get candidate) (hws : ws = it.workspace.aim c.normal)
      (hdirection : ws.dualDirection = .ok direction)
      (hplan : ws.plan direction e (it.slack.get candidate) (ws.curvature c) =
        .partway step label)
      (hlabel : label.position? m = some i)
      (hp : (ws.shift step direction).position? label e = some p) (hroom : ws.count ≤ slots)
      (hpoint : point = Vec.add it.point (Vec.scale step ws.primal)) :
      Dropped P candidate it
        { it with
          workspace := (ws.shift step direction).eraseAt p
          point
          value := it.value + step * ws.curvature c *
            (Scalar.half * step + Vec.extend ws.duals ws.count)
          slack := Vec.set it.slack candidate (c.slack point)
          isActive := Vec.set it.isActive i false
          events := .partialStep step label :: it.events }

/-- A pass makes the candidate tight and tries to fold it in. -/
inductive Reached (P : Problem α n e m) (candidate : Fin m) (it : Iterate α n slots m)
    (accepted : Bool) : Iterate α n slots m → Prop
  | intro {c : Constraint α n} {ws ws₁ : Workspace α n slots} {direction : Vector α ws.count}
      {step : α} {events : List (Event α)} (hc : c = P.inequalities.get candidate)
      (hws : ws = it.workspace.aim c.normal) (hdirection : ws.dualDirection = .ok direction)
      (hplan : ws.plan direction e (it.slack.get candidate) (ws.curvature c) = .full step)
      (hfold : (ws.shift step direction).fold = (ws₁, accepted)) :
      Reached P candidate it accepted
        { it with
          workspace := ws₁
          point := Vec.add it.point (Vec.scale step ws.primal)
          value := it.value + step * ws.curvature c *
            (Scalar.half * step + Vec.extend ws.duals ws.count)
          events }

/-- Nothing can move towards the candidate. -/
inductive Stuck (P : Problem α n e m) (candidate : Fin m) (it : Iterate α n slots m) :
    Iterate α n slots m → Prop
  | intro {c : Constraint α n} {ws : Workspace α n slots} {direction : Vector α ws.count}
      (hc : c = P.inequalities.get candidate) (hws : ws = it.workspace.aim c.normal)
      (hdirection : ws.dualDirection = .ok direction)
      (hplan : ws.plan direction e (it.slack.get candidate) (ws.curvature c) = .stay) :
      Stuck P candidate it { it with workspace := ws }

theorem drop_ok {s s' : Iterate α n slots m} {label : Label} {k : Nat}
    (h : s.drop label k = .ok s') :
    ∃ i p, label.position? m = some i ∧ s.workspace.position? label k = some p ∧
      s.workspace.count ≤ slots ∧
        s' = { s with
          workspace := s.workspace.eraseAt p
          isActive := Vec.set s.isActive i false } := by
  unfold drop at h
  split at h
  · cases h
  · next i hi =>
    dsimp only at h
    split at h
    · cases h
    · next ws hws =>
      cases h
      unfold Workspace.delete at hws
      split at hws
      · cases hws
      · next p hp =>
        split at hws
        · next hroom =>
          cases hws
          exact ⟨i, p, hi, hp, hroom, rfl⟩
        · split at hws <;> cases hws

/-- Entering a candidate is placing its name with the dual value zero. -/
theorem enter_ok {candidate : Fin m} {it it' : Iterate α n slots m}
    (h : it.enter candidate = .ok it') :
    ∃ ws, it.workspace.place (.inequality candidate) 0 = .ok ws ∧
      it' = { it with workspace := ws } := by
  unfold enter at h
  cases hplace : it.workspace.place (.inequality candidate) 0 with
  | error fault =>
    rw [hplace] at h
    cases h
  | ok ws =>
    rw [hplace] at h
    cases h
    exact ⟨ws, rfl, rfl⟩

/-- Carries out a move towards a constraint. -/
def act (it : Iterate α n slots m) (candidate : Fin m) (c : Constraint α n) (e : Nat)
    (direction : Vector α it.workspace.count) (curvature : α) : Move α → PassResult α n slots m
  | .stay => .settled .noStep it
  | .dual step dropped => it.dualStep step direction dropped e
  | .full step => (it.move step curvature direction).foldIn candidate step
  | .partway step dropped =>
    (it.move step curvature direction).partialStep step dropped e candidate c

section Pass

variable {P : Problem α n e m} {candidate : Fin m} {it : Iterate α n slots m} {c : Constraint α n}
  (hc : c = P.inequalities.get candidate)
include hc

/-- A pass carries out what is planned towards its candidate. -/
theorem pass_of_dualDirection {direction : Vector α (it.workspace.aim c.normal).count}
    (hdirection : (it.workspace.aim c.normal).dualDirection = .ok direction) :
    it.pass P candidate = act { it with workspace := it.workspace.aim c.normal } candidate c e
      direction ((it.workspace.aim c.normal).curvature c)
      ((it.workspace.aim c.normal).plan direction e (it.slack.get candidate)
        ((it.workspace.aim c.normal).curvature c)) := by
  subst hc
  simp only [Iterate.pass, hdirection]
  rfl

theorem pass_of_error {fault : Fault}
    (hdirection : (it.workspace.aim c.normal).dualDirection = .error fault) :
    it.pass P candidate = .failed fault { it with workspace := it.workspace.aim c.normal } := by
  subst hc
  simp only [Iterate.pass, hdirection]

end Pass

/-- What a pass leads to, unless it fails. -/
theorem pass_cases (P : Problem α n e m) (candidate : Fin m) (it : Iterate α n slots m) :
    (∃ fault it', it.pass P candidate = .failed fault it') ∨
    (∃ it', it.pass P candidate = .settled .noStep it' ∧ it.Stuck P candidate it') ∨
    (∃ it', it.pass P candidate = .again it' ∧ it.Dropped P candidate it') ∨
    (∃ it', it.pass P candidate = .settled .added it' ∧ it.Reached P candidate true it') ∨
    ∃ it', it.pass P candidate = .settled .degenerate it' ∧ it.Reached P candidate false it' := by
  obtain ⟨c, hc⟩ : ∃ c, c = P.inequalities.get candidate := ⟨_, rfl⟩
  cases hdirection : (it.workspace.aim c.normal).dualDirection with
  | error fault => exact .inl ⟨fault, _, pass_of_error hc hdirection⟩
  | ok direction =>
    rw [pass_of_dualDirection hc hdirection]
    cases hplan : (it.workspace.aim c.normal).plan direction e (it.slack.get candidate)
      ((it.workspace.aim c.normal).curvature c) with
    | stay => exact .inr (.inl ⟨_, rfl, ⟨hc, rfl, hdirection, hplan⟩⟩)
    | dual step label =>
      simp only [act, dualStep]
      split
      · exact .inl ⟨_, _, rfl⟩
      · next it' hdrop =>
        obtain ⟨i, p, hi, hp, hroom, rfl⟩ := drop_ok hdrop
        exact .inr (.inr (.inl ⟨_, rfl, .dual hc rfl hdirection hplan hi hp hroom⟩))
    | full step =>
      simp only [act, foldIn]
      split
      · next hfold =>
        exact .inr (.inr (.inr (.inl ⟨_, rfl, ⟨hc, rfl, hdirection, hplan, hfold⟩⟩)))
      · next hfold =>
        exact .inr (.inr (.inr (.inr ⟨_, rfl, ⟨hc, rfl, hdirection, hplan, hfold⟩⟩)))
    | partway step label =>
      simp only [act, partialStep]
      split
      · exact .inl ⟨_, _, rfl⟩
      · next it' hdrop =>
        obtain ⟨i, p, hi, hp, hroom, rfl⟩ := drop_ok hdrop
        exact .inr (.inr (.inl ⟨_, rfl, .partway hc rfl hdirection hplan hi hp hroom rfl⟩))

theorem stuck_of_noStep {P : Problem α n e m} {candidate : Fin m} {it it' : Iterate α n slots m}
    (h : it.pass P candidate = .settled .noStep it') : it.Stuck P candidate it' := by
  rcases pass_cases P candidate it with
    ⟨fault, it'', hp⟩ | ⟨it'', hp, hstuck⟩ | ⟨it'', hp, -⟩ | ⟨it'', hp, -⟩ | ⟨it'', hp, -⟩
  · cases h.symm.trans hp
  · cases h.symm.trans hp
    exact hstuck
  · cases h.symm.trans hp
  · cases h.symm.trans hp
  · cases h.symm.trans hp

end Iterate

namespace Machine

/-- The ways in which one state leads to the next. -/
inductive Leads (P : Problem α n e m) (limit : Nat) (tolerance : α) :
    Machine α n slots m → Machine α n slots m → Prop
  | met {it it' : Iterate α n slots m} {i : Fin e} {iterations evaluations : Nat}
      (h : it.Met P i it') :
      Leads P limit tolerance ⟨it, .equality i, iterations, evaluations⟩
        ⟨it', .equality (i + 1), iterations, evaluations⟩
  | allMet {it : Iterate α n slots m} {i iterations evaluations : Nat} (h : e ≤ i) :
      Leads P limit tolerance ⟨it, .equality i, iterations, evaluations⟩
        ⟨it, .head, iterations, evaluations⟩
  | begun {it it' : Iterate α n slots m} {iterations evaluations : Nat}
      (hit : it' = it.evaluate P)
      (hviolated : Scalar.le (Scalar.abs it'.infeasibility) tolerance = false)
      (hlimit : iterations < limit) :
      Leads P limit tolerance ⟨it, .head, iterations, evaluations⟩
        ⟨{ it' with workspace := it'.workspace.save it'.point it'.value },
          .select (Vector.replicate m false), iterations + 1, evaluations + 1⟩
  | chosen {it : Iterate α n slots m} {ws : Workspace α n slots} {excluded : Vector Bool m}
      {candidate : Fin m} {events : List (Event α)} {iterations evaluations : Nat}
      (hcandidate : it.mostViolated excluded = some candidate)
      (hplace : it.workspace.place (.inequality candidate) 0 = .ok ws)
      (fresh : excluded.get candidate = false) :
      Leads P limit tolerance ⟨it, .select excluded, iterations, evaluations⟩
        ⟨{ it with workspace := ws, events }, .pass candidate excluded fresh, iterations,
          evaluations⟩
  | dropped {it it' : Iterate α n slots m} {excluded : Vector Bool m} {candidate : Fin m}
      {fresh : excluded.get candidate = false} {iterations evaluations : Nat}
      (h : it.Dropped P candidate it') :
      Leads P limit tolerance ⟨it, .pass candidate excluded fresh, iterations, evaluations⟩
        ⟨it', .pass candidate excluded fresh, iterations, evaluations⟩
  | added {it it' : Iterate α n slots m} {excluded : Vector Bool m} {candidate : Fin m}
      {fresh : excluded.get candidate = false} {iterations evaluations : Nat}
      (h : it.Reached P candidate true it') :
      Leads P limit tolerance ⟨it, .pass candidate excluded fresh, iterations, evaluations⟩
        ⟨{ it' with isActive := Vec.set it'.isActive candidate true }, .head, iterations,
          evaluations⟩
  | undone {it it' : Iterate α n slots m} {excluded isActive : Vector Bool m} {candidate : Fin m}
      {fresh : excluded.get candidate = false} {iterations evaluations : Nat}
      {events : List (Event α)}
      (h : it.Reached P candidate false it')
      (hflags : Iterate.flags m (it'.undo.workspace.labelsFrom e) = .ok isActive) :
      Leads P limit tolerance ⟨it, .pass candidate excluded fresh, iterations, evaluations⟩
        ⟨{ it'.undo with isActive, events }.evaluate P, .select (Vec.set excluded candidate true),
          iterations, evaluations⟩

theorem leads_of_equalityStep {P : Problem α n e m} {limit : Nat} {tolerance : α} {i : Fin e}
    {s s' : Machine α n slots m} (hphase : s.phase = .equality i)
    (h : s.equalityStep P i = .next s') : Leads P limit tolerance s s' := by
  obtain ⟨it, phase, iterations, evaluations⟩ := s
  cases hphase
  unfold equalityStep at h
  dsimp only at h
  split at h
  · cases h
  · next direction hdirection =>
    split at h
    · cases h
    · next ws hplace =>
      split at h
      · next ws₂ hfold =>
        cases h
        exact .met ⟨rfl, rfl, hdirection, rfl, hplace, hfold⟩
      · cases h

/-- The list is complete. -/
theorem leads_of_step {P : Problem α n e m} {limit : Nat} {tolerance : α}
    {s s' : Machine α n slots m} (h : s.step P limit tolerance = .next s') :
    Leads P limit tolerance s s' := by
  obtain ⟨it, phase, iterations, evaluations⟩ := s
  cases phase with
  | equality i =>
    simp only [step] at h
    split at h
    · next hi => exact leads_of_equalityStep (i := ⟨i, hi⟩) rfl h
    · next hi =>
      cases h
      exact .allMet (Nat.not_lt.mp hi)
  | head =>
    simp only [step, headStep] at h
    split at h
    · cases h
    · next hviolated =>
      split at h
      · cases h
      · next hlimit =>
        cases h
        exact .begun rfl (Bool.eq_false_iff.mpr hviolated) (Nat.not_le.mp hlimit)
  | select excluded =>
    simp only [step, selectStep] at h
    split at h
    · split at h <;> cases h
    · next candidate hcandidate =>
      split at h
      · cases h
      · next it' henter =>
        cases h
        obtain ⟨ws, hplace, rfl⟩ := Iterate.enter_ok henter
        exact .chosen hcandidate hplace _
  | pass candidate excluded fresh =>
    simp only [step, passStep] at h
    -- a pass fails, is stuck, drops a constraint, or folds the candidate in or not
    rcases Iterate.pass_cases P candidate it with
      ⟨fault, it', hp⟩ | ⟨it', hp, -⟩ | ⟨it', hp, hdropped⟩ | ⟨it', hp, hreached⟩ |
        ⟨it', hp, hreached⟩
    · rw [hp] at h
      cases h
    · rw [hp] at h
      cases h
    · rw [hp] at h
      cases h
      exact .dropped hdropped
    · rw [hp] at h
      cases h
      exact .added hreached
    · rw [hp] at h
      dsimp only at h
      split at h
      · cases h
      · next isActive hflags =>
        cases h
        exact (Leads.undone hreached hflags : Leads P limit tolerance _
          ⟨({ it'.undo with isActive, events := .degenerate candidate :: it'.events }).evaluate P,
            _, _, _⟩)

/-- The ways in which a solve ends with an answer. -/
inductive Ends (P : Problem α n e m) (limit : Nat) (tolerance : α) :
    Machine α n slots m → Status → Machine α n slots m → Prop
  | near {it : Iterate α n slots m} {iterations evaluations : Nat}
      (h : Scalar.le (Scalar.abs (it.evaluate P).infeasibility) tolerance = true) :
      Ends P limit tolerance ⟨it, .head, iterations, evaluations⟩ .proper
        ⟨it.evaluate P, .head, iterations, evaluations + 1⟩
  | limit {it : Iterate α n slots m} {events : List (Event α)} {iterations evaluations : Nat}
      (h : limit ≤ iterations) :
      Ends P limit tolerance ⟨it, .head, iterations, evaluations⟩ .iterationLimit
        ⟨{ it.evaluate P with events }, .head, iterations, evaluations + 1⟩
  | exhausted {it : Iterate α n slots m} {excluded : Vector Bool m}
      {iterations evaluations : Nat} (hnone : it.mostViolated excluded = none)
      (hexcluded : excluded.any id = false) :
      Ends P limit tolerance ⟨it, .select excluded, iterations, evaluations⟩ .proper
        ⟨it, .select excluded, iterations, evaluations⟩
  | degenerate {it : Iterate α n slots m} {excluded : Vector Bool m} {events : List (Event α)}
      {iterations evaluations : Nat} (hnone : it.mostViolated excluded = none) :
      Ends P limit tolerance ⟨it, .select excluded, iterations, evaluations⟩ .roundOff
        ⟨{ it with events }, .select excluded, iterations, evaluations⟩
  | stuck {it it' : Iterate α n slots m} {excluded : Vector Bool m} {candidate : Fin m}
      {fresh : excluded.get candidate = false} {events : List (Event α)}
      {iterations evaluations : Nat} (h : it.Stuck P candidate it') :
      Ends P limit tolerance ⟨it, .pass candidate excluded fresh, iterations, evaluations⟩
        .roundOff ⟨{ it' with events }, .pass candidate excluded fresh, iterations, evaluations⟩

theorem ends_of_step {P : Problem α n e m} {limit : Nat} {tolerance : α}
    {s s' : Machine α n slots m} {status : Status}
    (h : s.step P limit tolerance = .stop status s') : Ends P limit tolerance s status s' := by
  obtain ⟨it, phase, iterations, evaluations⟩ := s
  cases phase with
  | equality i =>
    simp only [step] at h
    split at h
    · simp only [equalityStep] at h
      split at h
      · cases h
      · split at h
        · cases h
        · split at h <;> cases h
    · cases h
  | head =>
    simp only [step, headStep] at h
    split at h
    · next hnear =>
      cases h
      exact .near hnear
    · split at h
      · next hlimit =>
        cases h
        exact .limit hlimit
      · cases h
  | select excluded =>
    simp only [step, selectStep] at h
    split at h
    · next hnone =>
      split at h
      · cases h
        exact .degenerate hnone
      · next hexcluded =>
        cases h
        exact .exhausted hnone (Bool.eq_false_iff.mpr hexcluded)
    · split at h <;> cases h
  | pass candidate excluded fresh =>
    simp only [step, passStep] at h
    rcases Iterate.pass_cases P candidate it with
      ⟨fault, it', hp⟩ | ⟨it', hp, hstuck⟩ | ⟨it', hp, -⟩ | ⟨it', hp, -⟩ | ⟨it', hp, -⟩
    · rw [hp] at h
      cases h
    · rw [hp] at h
      cases h
      exact .stuck hstuck
    · rw [hp] at h
      cases h
    · rw [hp] at h
      cases h
    · rw [hp] at h
      dsimp only at h
      split at h <;> cases h

end Machine

end ActiveSet

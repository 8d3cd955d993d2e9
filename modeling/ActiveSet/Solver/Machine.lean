import ActiveSet.Solver.Pivot
/-
  The course of a solve

  A solve starts from the unconstrained minimum. It first adds the equalities
  one after the other; then it repeats an iteration: measure the slack of every
  inequality, stop if the violation is negligible, else add the most violated
  one. A candidate whose addition turns out degenerate is undone together with
  everything that was dropped for it, and the next one is tried; the excluded
  candidates are those tried in this iteration.

  `Machine.step` is one transition, `Machine.run` follows transitions to the
  end. Every transition lowers `Machine.rank`: an iteration uses up one of the
  allowed iterations, an undone candidate one that was not excluded yet, a
  dropped constraint one that was active.
-/

namespace ActiveSet

/-- Where a solve stands. -/
inductive Phase (m : Nat) where
  /-- The equality with this position is next. -/
  | equality (index : Nat)
  /-- An iteration may begin. -/
  | head
  /-- A candidate is to be chosen among those not excluded. -/
  | select (excluded : Vector Bool m)
  /-- The candidate, not excluded so far, is being added. -/
  | pass (candidate : Fin m) (excluded : Vector Bool m) (fresh : excluded.get candidate = false)

/-- The state of a solve with its place and its counters. -/
structure Machine (α : Type) (n slots m : Nat) where
  iterate : Iterate α n slots m
  phase : Phase m
  /-- Iterations begun. -/
  iterations : Nat
  /-- Evaluations of the constraints, the unconstrained minimum included. -/
  evaluations : Nat

/-- What a transition leads to. -/
inductive Transition (α : Type) (n slots m : Nat) where
  | next (s : Machine α n slots m)
  | stop (status : Status) (s : Machine α n slots m)
  | fail (fault : Fault) (s : Machine α n slots m)

namespace Iterate

variable {α : Type} [Scalar α] {n e m slots : Nat}

/-- Measures the slack of every inequality. -/
def evaluate (P : Problem α n e m) (s : Iterate α n slots m) : Iterate α n slots m :=
  { s with slack := P.slacks s.point }

/-- The sum of the negative slacks. -/
def infeasibility (s : Iterate α n slots m) : α :=
  Vec.sum (s.slack.map fun x => Scalar.minimum x 0)

/-- Whether an inequality may be added: violated, not in the active set, not excluded. -/
def isCandidate (s : Iterate α n slots m) (excluded : Vector Bool m) (i : Fin m) : Bool :=
  !s.isActive.get i && !excluded.get i && Scalar.lt (s.slack.get i) 0

/-- The first of the indices at which the slack is least. -/
def leastSlack (s : Iterate α n slots m) : List (Fin m) → Option (Fin m)
  | [] => none
  | i :: rest =>
    some (rest.foldl
      (fun b k => if Scalar.lt (s.slack.get k) (s.slack.get b) then k else b) i)

/-- The most violated candidate. -/
def mostViolated (s : Iterate α n slots m) (excluded : Vector Bool m) : Option (Fin m) :=
  s.leastSlack ((List.finRange m).filter (s.isCandidate excluded))

/-- The flags of the inequalities that are named. -/
def flags (m : Nat) (labels : List Label) : Except Fault (Vector Bool m) :=
  labels.foldlM
    (fun v label =>
      match label.position? m with
      | none => .error .indexOutOfRange
      | some i => .ok (Vec.set v i true))
    (Vector.replicate m false)

/-- Undoes all that happened since the iteration began, the flags of the active set apart. -/
def undo (s : Iterate α n slots m) : Iterate α n slots m :=
  { s with
    workspace := s.workspace.restore
    point := s.workspace.saved.point
    value := s.workspace.saved.value }

theorem mem_of_leastSlack {s : Iterate α n slots m} {l : List (Fin m)} {i : Fin m}
    (h : s.leastSlack l = some i) : i ∈ l := by
  cases l with
  | nil => cases h
  | cons a l =>
    simp only [leastSlack, Option.some.injEq] at h
    subst h
    suffices H : ∀ (l : List (Fin m)) (b : Fin m),
        l.foldl (fun b k => if Scalar.lt (s.slack.get k) (s.slack.get b) then k else b) b ∈
          b :: l from
      H l a
    intro l
    induction l with
    | nil => intro b; exact List.mem_cons_self ..
    | cons k l ih =>
      intro b
      rw [List.foldl_cons]
      split
      · exact List.mem_cons_of_mem _ (ih k)
      · rcases List.mem_cons.mp (ih b) with hb | hb
        · rw [hb]; exact List.mem_cons_self ..
        · exact List.mem_cons_of_mem _ (List.mem_cons_of_mem _ hb)

theorem isCandidate_of_mostViolated {s : Iterate α n slots m} {excluded : Vector Bool m}
    {i : Fin m} (h : s.mostViolated excluded = some i) : s.isCandidate excluded i = true :=
  (List.mem_filter.mp (mem_of_leastSlack h)).2

theorem fresh_of_mostViolated {s : Iterate α n slots m} {excluded : Vector Bool m} {i : Fin m}
    (h : s.mostViolated excluded = some i) : excluded.get i = false := by
  have hc := isCandidate_of_mostViolated h
  simp only [isCandidate, Bool.and_eq_true, Bool.not_eq_true'] at hc
  exact hc.1.2

end Iterate

namespace Machine

variable {α : Type} [Scalar α] {n e m slots : Nat}

/-- Adds an equality. The point moves onto it if it can move at all; an equality that depends on
those before it ends the solve. -/
def equalityStep (P : Problem α n e m) (i : Fin e) (s : Machine α n slots m) :
    Transition α n slots m :=
  let it := s.iterate
  let constraint := P.equalities.get i
  let ws := it.workspace.aim constraint.normal
  match ws.dualDirection with
  | .error fault => .fail fault { s with iterate := { it with workspace := ws } }
  | .ok direction =>
    let curvature := Vec.dot ws.primal constraint.normal
    let step :=
      if Scalar.lt Scalar.epsilon (Scalar.abs (Vec.dot ws.primal ws.primal)) then
        -(constraint.slack it.point) / curvature
      else 0
    let it :=
      { it with
        workspace := ws.relax step direction
        point := Vec.add it.point (Vec.scale step ws.primal)
        value := it.value + Scalar.half * step * step * curvature }
    match it.workspace.place (.equality i) step with
    | .error fault => .fail fault { s with iterate := it }
    | .ok ws =>
      match ws.fold with
      | (ws, true) =>
        .next { s with iterate := { it with workspace := ws }, phase := .equality (i + 1) }
      | (ws, false) =>
        .fail (.dependentEquality i)
          { s with iterate := { it with workspace := ws }.report (.dependentEquality i) }

/-- Begins an iteration, unless the violation is negligible or no iteration is left. -/
def headStep (P : Problem α n e m) (limit : Nat) (tolerance : α) (s : Machine α n slots m) :
    Transition α n slots m :=
  let it := s.iterate.evaluate P
  let s := { s with iterate := it, evaluations := s.evaluations + 1 }
  let infeasibility := it.infeasibility
  if Scalar.le (Scalar.abs infeasibility) tolerance then .stop .proper s
  else if limit ≤ s.iterations then
    .stop .iterationLimit { s with iterate := it.report (.limitReached limit infeasibility) }
  else
    .next
      { s with
        iterate := { it with workspace := it.workspace.save it.point it.value }
        iterations := s.iterations + 1
        phase := .select (Vector.replicate m false) }

/-- Chooses the most violated candidate. Where there is none, the solve has succeeded unless
candidates were excluded. -/
def selectStep (excluded : Vector Bool m) (s : Machine α n slots m) : Transition α n slots m :=
  match h : s.iterate.mostViolated excluded with
  | none =>
    if excluded.any id then
      let tried := (List.finRange m).filter fun i => excluded.get i
      .stop .roundOff
        { s with iterate := s.iterate.report (.onlyDegenerate (tried.map fun i => i.val)) }
    else .stop .proper s
  | some candidate =>
    let it := s.iterate.report (.adding s.iterations candidate (s.iterate.slack.get candidate))
    match it.enter candidate with
    | .error fault => .fail fault { s with iterate := it }
    | .ok it =>
      .next
        { s with
          iterate := it
          phase := .pass candidate excluded (Iterate.fresh_of_mostViolated h) }

/-- Makes one pass for the candidate, and acts on its outcome once it is settled. -/
def passStep (P : Problem α n e m) (candidate : Fin m) (excluded : Vector Bool m)
    (s : Machine α n slots m) : Transition α n slots m :=
  match s.iterate.pass P candidate with
  | .failed fault it => .fail fault { s with iterate := it }
  | .again it => .next { s with iterate := it }
  | .settled .noStep it =>
    .stop .roundOff { s with iterate := it.report (.noStep candidate) }
  | .settled .added it =>
    .next
      { s with
        iterate := { it with isActive := Vec.set it.isActive candidate true }
        phase := .head }
  | .settled .degenerate it =>
    let it := (it.report (.degenerate candidate)).undo
    match Iterate.flags m (it.workspace.labelsFrom e) with
    | .error fault => .fail fault { s with iterate := it }
    | .ok isActive =>
      .next
        { s with
          iterate := { it with isActive }.evaluate P
          phase := .select (Vec.set excluded candidate true) }

/-- One transition. -/
def step (P : Problem α n e m) (limit : Nat) (tolerance : α) (s : Machine α n slots m) :
    Transition α n slots m :=
  match s.phase with
  | .equality i =>
    if h : i < e then s.equalityStep P ⟨i, h⟩ else .next { s with phase := .head }
  | .head => s.headStep P limit tolerance
  | .select excluded => s.selectStep excluded
  | .pass candidate excluded _ => s.passStep P candidate excluded

/-- The number of candidates not excluded. -/
def unexcluded (excluded : Vector Bool m) : Nat := excluded.countP fun b => !b

/-- What every transition lowers: the equalities left, the iterations left, the candidates not
excluded, whether one is still to be chosen, the active constraints. -/
def rank (e limit : Nat) (s : Machine α n slots m) : Nat × Nat × Nat × Nat × Nat :=
  match s.phase with
  | .equality i => (e - i + 1, 0, 0, 0, 0)
  | .head => (0, limit - s.iterations, 0, 0, 0)
  | .select excluded => (0, limit - s.iterations, unexcluded excluded + 1, 1, 0)
  | .pass _ excluded _ =>
    (0, limit - s.iterations, unexcluded excluded + 1, 0, s.iterate.workspace.count)

/-- The order in which ranks are compared. -/
abbrev RankLt (a b : Nat × Nat × Nat × Nat × Nat) : Prop :=
  Prod.Lex (· < ·) (Prod.Lex (· < ·) (Prod.Lex (· < ·) (Prod.Lex (· < ·) (· < ·)))) a b

omit [Scalar α] in
theorem unexcluded_set {excluded : Vector Bool m} {i : Fin m} (h : excluded.get i = false) :
    unexcluded (Vec.set excluded i true) < unexcluded excluded := by
  rw [Vec.get_eq_getElem] at h
  have hpos : 0 < excluded.countP (fun b => !b) :=
    Vector.countP_pos_iff.mpr ⟨_, Vector.getElem_mem i.isLt, by rw [h]; rfl⟩
  unfold unexcluded Vec.set
  rw [Vector.countP_set, h]
  change excluded.countP (fun b => !b) - 1 + 0 < excluded.countP (fun b => !b)
  omega

theorem rank_equalityStep {P : Problem α n e m} {i : Fin e} {s s' : Machine α n slots m}
    (h : s.equalityStep P i = .next s') : s'.phase = .equality (i + 1) := by
  unfold equalityStep at h
  dsimp only at h
  split at h
  · cases h
  · split at h
    · cases h
    · split at h
      · cases h; rfl
      · cases h

theorem rank_step {P : Problem α n e m} {limit : Nat} {tolerance : α}
    {s s' : Machine α n slots m} (h : s.step P limit tolerance = .next s') :
    RankLt (s'.rank e limit) (s.rank e limit) := by
  obtain ⟨it, phase, iterations, evaluations⟩ := s
  cases phase with
  | equality i =>
    simp only [step] at h
    split at h
    · next hi =>
      simp only [rank, rank_equalityStep h]
      exact Prod.Lex.left _ _ (by omega)
    · cases h
      exact Prod.Lex.left _ _ (by omega)
  | head =>
    simp only [step, headStep] at h
    split at h
    · cases h
    · split at h
      · cases h
      · next hl =>
        cases h
        exact Prod.Lex.right _ (Prod.Lex.left _ _ (by simp only at hl ⊢; omega))
  | select excluded =>
    simp only [step, selectStep] at h
    split at h
    · split at h <;> cases h
    · split at h
      · cases h
      · cases h
        exact Prod.Lex.right _ (Prod.Lex.right _ (Prod.Lex.right _ (Prod.Lex.left _ _ (by omega))))
  | pass candidate excluded fresh =>
    simp only [step, passStep] at h
    split at h
    · cases h
    · next hp =>
      cases h
      exact Prod.Lex.right _ (Prod.Lex.right _ (Prod.Lex.right _ (Prod.Lex.right _
        (Iterate.count_of_pass hp))))
    · cases h
    · cases h
      exact Prod.Lex.right _ (Prod.Lex.right _ (Prod.Lex.left _ _ (by omega)))
    · split at h
      · cases h
      · cases h
        exact Prod.Lex.right _ (Prod.Lex.right _ (Prod.Lex.left _ _
          (Nat.succ_lt_succ (unexcluded_set fresh))))

/-- Follows the transitions to the end of the solve. -/
def run (P : Problem α n e m) (limit : Nat) (tolerance : α) (s : Machine α n slots m) :
    Except Fault Status × Machine α n slots m :=
  match _h : s.step P limit tolerance with
  | .next s' => run P limit tolerance s'
  | .stop status s' => (.ok status, s')
  | .fail fault s' => (.error fault, s')
termination_by s.rank e limit
decreasing_by exact rank_step _h

end Machine

end ActiveSet

import ActiveSet.Proofs.Ascent
/-
  What it means that nothing can move

  In a separated run a candidate that admits no step at all proves that the
  program has no feasible point. Its normal is a combination of the active
  normals in which no inequality has a positive weight; the active equalities
  are on their bounds and the active inequalities at their bounds or short of
  them, so a feasible point could not be on the candidate's side either: its
  slack there would be at most the present one, which is negative.

  It is also the candidate's first pass. A constraint that is dropped for a
  candidate had the dual direction's help in it, and without that constraint
  the candidate depends on the others no more (`independent_of_dropsAt`).
-/

open Matrix

namespace ActiveSet

variable {n e m slots : Nat}

namespace Machine

variable {P : Problem ℝ n e m} {limit : Nat} {tolerance : ℝ} {start s : Machine ℝ n slots m}
  {history : List (Admission ℝ n slots m)} {candidate : Fin m} {excluded : Vector Bool m}
  {fresh : excluded.get candidate = false}

/-- A candidate that depends on the active constraints has been chosen just now. -/
theorem exists_chosen_of_dependent (hphase : start.phase = .equality 0)
    (hstanding : Standing P tolerance start) (hcolumns : Columns P [] start.iterate.snapshot)
    (hseparated : Separated P limit tolerance start)
    (hcourse : Course P limit tolerance start history s)
    (hs : s.phase = .pass candidate excluded fresh) {weight : Nat → ℝ}
    (hweight : (P.inequalities.get candidate).normal.get =
      P.weighted s.iterate.workspace.label weight s.iterate.workspace.count) :
    ∃ earlier before, Course P limit tolerance start earlier before ∧
      before.phase = .select excluded ∧ before.step P limit tolerance = .next s := by
  cases hcourse with
  | start => cases hphase.symm.trans hs
  | @next earlier before _ hbefore hstep =>
    have hstood : Standing P tolerance before := standing_of_course hstanding hbefore
    have hnow := columns_of_course hphase hstanding hcolumns hbefore
    have hclean := (hseparated _ _ hbefore).1
    cases leads_of_step hstep with
    | met => cases hs
    | allMet => cases hs
    | begun => cases hs
    | chosen hcandidate hplace fresh =>
      cases hs
      exact ⟨earlier, _, hbefore, rfl, hstep⟩
    | dropped hdropped =>
      -- what was dropped is missing in every combination that is left
      cases hs
      obtain ⟨c, direction, step, p, hdrop⟩ := hdropped.dropsAt hstood
      have hindependent := independent_of_dropsAt hstood hnow hclean hdrop
      rw [hdrop.constraint] at hindependent
      exact absurd hweight (hindependent weight)
    | added => cases hs
    | undone => cases hs

end Machine

namespace Program

variable {program : Program ℝ} {limit : Int} {buffers : Option (Buffers ℝ)}
  {history : List (Admission ℝ program.dimension slots program.inequalityCount)}
  {s : Machine ℝ program.dimension slots program.inequalityCount}
  {candidate : Fin program.inequalityCount} {excluded : Vector Bool program.inequalityCount}
  {fresh : excluded.get candidate = false}

/-- A candidate that is violated and depends on the active constraints without a positive weight on
an inequality is met by no feasible point. -/
theorem not_feasible_of_weight (hsymmetric : program.problem.quadratic.IsSymmetric)
    (hseparated : program.Separated limit buffers) (h : program.Course limit buffers history s)
    (hs : s.phase = .pass candidate excluded fresh) {weight : Nat → ℝ}
    (hweight : (program.problem.inequalities.get candidate).normal.get =
      program.problem.weighted s.iterate.workspace.label weight s.iterate.workspace.count)
    (hnonpos : ∀ k, program.equalityCount ≤ k → k < s.iterate.workspace.count → weight k ≤ 0)
    (y : Vector ℝ program.dimension) : ¬ program.problem.Feasible y := by
  intro hy
  have hadvances := advances_of_course hsymmetric h hs
  have hstanding := standing_of_course h
  rw [Machine.Standing, hs] at hstanding
  have hpull := dot_weighted_nonneg_of_course hsymmetric hseparated h hstanding.seating
    (fun k hek hk => neg_nonneg.mpr (hnonpos k hek hk)) hy
  have hopposite : program.problem.weighted s.iterate.workspace.label (fun k => -weight k)
      s.iterate.workspace.count =
        -(program.problem.inequalities.get candidate).normal.get := by
    rw [hweight, Problem.weighted, Problem.weighted, ← Finset.sum_neg_distrib]
    exact Finset.sum_congr rfl fun k _ => neg_smul _ _
  rw [hopposite, dotProduct_neg, Constraint.dot_normal] at hpull
  have hnonneg := hy.inequalities candidate
  rw [Iterate.get_slacks] at hnonneg
  have hviolated := hadvances.violated
  rw [hadvances.measured] at hviolated
  linarith

/-- An answer is read off the state at which the course stops. -/
theorem concludes_of_stop {guess : Option (Guess ℝ)} {status : Status}
    {answer : Solution ℝ program.dimension program.equalityCount program.inequalityCount}
    {final : Machine ℝ program.dimension slots program.inequalityCount}
    (hconstraints : program.constraintCount ≠ 0) (h : program.Course limit buffers history s)
    (hstop : program.step limit s = .stop status final)
    (hanswer : (program.solve guess limit buffers).outcome = .ok answer) :
    answer.status = status ∧ program.Concludes limit buffers answer history s := by
  obtain ⟨slots', history', last, hconcludes⟩ := concludes_of_solve hconstraints hanswer
  obtain ⟨⟨L, workspace, hfactor, hroom, hcourse⟩, final', hstop', hread⟩ := hconcludes
  obtain ⟨L', workspace', hfactor', hroom', hcourse'⟩ := h
  cases hfactor.symm.trans hfactor'
  cases hroom.symm.trans hroom'
  obtain ⟨rfl, rfl⟩ := hcourse.unique hcourse' (Machine.isLast_of_stop hstop')
    (Machine.isLast_of_stop hstop)
  rw [hstop] at hstop'
  injection hstop' with hstatus hfinal
  subst hstatus hfinal
  exact ⟨rfl, ⟨_, _, hfactor', hroom', hcourse'⟩, _, hstop, hread⟩

/-- A candidate that admits no step certifies that the program is infeasible. The solve ends there
with an answer that reports a round-off error; it is the candidate's first pass; its normal is a
combination of the active normals without a positive weight on an inequality; and no point satisfies
all constraints. -/
theorem infeasible_of_noStep (hsymmetric : program.problem.quadratic.IsSymmetric)
    (hseparated : program.Separated limit buffers) (h : program.Course limit buffers history s)
    (hs : s.phase = .pass candidate excluded fresh)
    {it' : Iterate ℝ program.dimension slots program.inequalityCount}
    (hpass : s.iterate.pass program.problem candidate = .settled .noStep it') :
    (∃ final, program.step limit s = .stop .roundOff final) ∧
      (∀ guess L, program.prepare guess limit = .ok L →
        ∃ answer, (program.solve guess limit buffers).outcome = .ok answer ∧
          answer.status = .roundOff) ∧
      (∀ (guess : Option (Guess ℝ))
        (answer : Solution ℝ program.dimension program.equalityCount program.inequalityCount),
        (program.solve guess limit buffers).outcome = .ok answer → answer.status = .roundOff) ∧
      (∃ earlier before, program.Course limit buffers earlier before ∧
        before.phase = .select excluded ∧ program.step limit before = .next s) ∧
      (∃ weight : Nat → ℝ,
        (program.problem.inequalities.get candidate).normal.get =
            program.problem.weighted s.iterate.workspace.label weight s.iterate.workspace.count ∧
          ∀ k, program.equalityCount ≤ k → k < s.iterate.workspace.count → weight k ≤ 0) ∧
      ¬ ∃ y, program.problem.Feasible y := by
  obtain ⟨it, phase, iterations, evaluations⟩ := s
  cases hs
  have hstop : program.step limit ⟨it, .pass candidate excluded fresh, iterations, evaluations⟩ =
      .stop .roundOff _ := Machine.stop_of_noStep hpass
  have hconstraints : program.constraintCount ≠ 0 := by
    have := candidate.isLt
    unfold constraintCount
    omega
  obtain ⟨hclean, hsquare⟩ := hseparated _ _ _ h
  obtain ⟨weight, hweight, hnonpos⟩ := Machine.exists_weight_of_stuck
    (columns_of_course hsymmetric h) hclean (Machine.square_of_inHand rfl hsquare)
    (Iterate.stuck_of_noStep hpass)
  refine ⟨⟨_, hstop⟩, ?_, fun guess answer hanswer =>
    (concludes_of_stop hconstraints h hstop hanswer).1, ?_, ⟨weight, hweight, hnonpos⟩, ?_⟩
  · intro guess L hprepare
    obtain ⟨answer, hanswer, hstatus, -⟩ :=
      exists_answer_of_course hprepare hconstraints h hstop
    exact ⟨answer, hanswer, hstatus⟩
  · obtain ⟨L, workspace, hfactor, hroom, hcourse⟩ := h
    obtain ⟨earlier, before, hbefore, hselect, hstep⟩ := Machine.exists_chosen_of_dependent rfl
      (Machine.standing_start _ _ _ _ _) (columns_origin hsymmetric hfactor workspace)
      (hseparated.machine hfactor hroom) hcourse rfl hweight
    exact ⟨earlier, before, ⟨L, workspace, hfactor, hroom, hbefore⟩, hselect, hstep⟩
  · rintro ⟨y, hy⟩
    exact not_feasible_of_weight hsymmetric hseparated h rfl hweight hnonpos y hy

/-- The bounds `x ≥ 1` and `x ≤ 0` are found to exclude each other, and a round-off error is
answered. -/
theorem infeasible_of_noStep_crossing :
    (crossing 0).problem.quadratic.IsSymmetric ∧ (crossing 0).Separated 100 none ∧
      ∃ (history : List (Admission ℝ 1 2 2)) (it it' : Iterate ℝ 1 2 2)
        (fresh : (Vector.replicate 2 false).get (1 : Fin 2) = false),
        (crossing 0).Course 100 none history
          ⟨it, .pass (1 : Fin 2) (Vector.replicate 2 false) fresh, 2, 3⟩ ∧
        it.pass (Problem.crossing 0) 1 = .settled .noStep it' ∧
        (∃ answer : Solution ℝ 1 0 2, ((crossing 0).solve none 100 none).outcome = .ok answer ∧
          answer.status = .roundOff) ∧
        (∃ weight : Nat → ℝ,
          ((Problem.crossing 0).inequalities.get 1).normal.get =
              (Problem.crossing 0).weighted it.workspace.label weight it.workspace.count ∧
            ∀ k < it.workspace.count, weight k ≤ 0) ∧
        ¬ ∃ y, (Problem.crossing 0).Feasible y := by
  have hsymmetric : (crossing 0).problem.quadratic.IsSymmetric := Problem.isSymmetric_crossing 0
  have hseparated := separated_crossing 0 100
  obtain ⟨history, head, it, it', fresh, -, -, hcourse, hnoStep⟩ :=
    exists_run_crossing (le_refl 0) apart_crossing (show (2 : Int) ≤ 100 by decide)
  obtain ⟨-, hanswer, -, -, ⟨weight, hweight, hnonpos⟩, hinfeasible⟩ :=
    infeasible_of_noStep hsymmetric hseparated hcourse rfl hnoStep
  exact ⟨hsymmetric, hseparated, history, it, it', fresh, hcourse, hnoStep,
    hanswer none _ (Problem.factor_nearest _ _ one_pos),
    ⟨weight, hweight, fun k hk => hnonpos k (Nat.zero_le k) hk⟩, hinfeasible⟩

end Program

end ActiveSet

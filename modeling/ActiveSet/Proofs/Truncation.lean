import ActiveSet.Proofs.Convergence
import ActiveSet.Proofs.Effort
import ActiveSet.Proofs.Rollback
/-
  What the limit on the iterations does

  The limit is looked at in one place: at the head of an iteration, to decide
  whether it may begin. Two limits therefore give the same transition from
  every state but a head that has used up the smaller one (`step_of_le`). A run
  under the smaller limit is a run under the greater one as far as it goes
  (`Course.mono`), and all of it unless it ends at the limit (`run_of_le`).

  So a solve that does not end at the limit leaves the same under any greater
  one, in any arithmetic. One that does gives the state of the other solve at
  the head of the iteration that it may not begin; there is one such head
  (`Course.eq_of_head`). Over the real numbers the other solve goes on from
  there without failing, and its value does not fall.
-/

namespace ActiveSet

variable {α : Type} [Scalar α] {n e m slots : Nat}

/-! ## Two limits -/

namespace Machine

variable {P : Problem α n e m} {limit limit' : Nat} {tolerance : α}
  {start s t : Machine α n slots m} {history later : List (Admission α n slots m)}

/-- Under a greater limit a transition is the same, unless the smaller one ends the run. -/
theorem step_of_le (hle : limit ≤ limit') (s : Machine α n slots m) :
    s.step P limit tolerance = s.step P limit' tolerance ∨
      ∃ s', s.step P limit tolerance = .stop .iterationLimit s' := by
  obtain ⟨it, phase, iterations, evaluations⟩ := s
  cases phase with
  | equality | select | pass => exact .inl rfl
  | head =>
    simp only [step, headStep]
    split
    · exact .inl rfl
    · split
      · exact .inr ⟨_, rfl⟩
      · next hleft => exact .inl (if_neg fun hreached => hleft (hle.trans hreached)).symm

/-- What a run passes through, it passes through under a greater limit. -/
theorem Course.mono (hle : limit ≤ limit') (h : Course P limit tolerance start history s) :
    Course P limit' tolerance start history s := by
  induction h with
  | start => exact .start
  | @next history s s' _ hstep ih =>
    have hcases : s.step P limit tolerance = s.step P limit' tolerance ∨
        ∃ t, s.step P limit tolerance = .stop .iterationLimit t := step_of_le hle s
    rcases hcases with hsame | ⟨t, hstop⟩
    · exact ih.next (hsame.symm.trans hstep)
    · cases hstop.symm.trans hstep

/-- A run that does not end at its limit is the same under a greater one. -/
theorem run_of_le (hle : limit ≤ limit')
    (h : (s.run P limit tolerance).1 ≠ .ok .iterationLimit) :
    s.run P limit tolerance = s.run P limit' tolerance := by
  induction s using Machine.run.induct P limit tolerance with
  | case1 s s' hstep ih =>
    rcases step_of_le hle s with hsame | ⟨t, hstop⟩
    · rw [run_of_next hstep] at h ⊢
      rw [run_of_next (hsame.symm.trans hstep)]
      exact ih h
    · cases hstop.symm.trans hstep
  | case2 s status s' hstep =>
    rcases step_of_le hle s with hsame | ⟨t, hstop⟩
    · rw [run_of_stop hstep, run_of_stop (hsame.symm.trans hstep)]
    · rw [run_of_stop hstop] at h
      exact absurd rfl h
  | case3 s fault s' hstep =>
    rcases step_of_le hle s with hsame | ⟨t, hstop⟩
    · rw [run_of_fail hstep, run_of_fail (hsame.symm.trans hstep)]
    · cases hstop.symm.trans hstep

/-- A run that has left a head has begun an iteration there. -/
theorem Course.eq_of_head (h : Course P limit tolerance s later t) (hs : s.phase = .head)
    (hle : t.iterations ≤ s.iterations) : t = s := by
  rcases h.eq_or_step with ⟨-, rfl⟩ | ⟨u, later', hu, -, hlater⟩
  · rfl
  · have hbegun : u.iterations = s.iterations + 1 := by
      cases leads_of_step hu with
      | begun => rfl
      | met | allMet | chosen | dropped | added | undone => cases hs
    have hrisen := hlater.iterations_le
    omega

end Machine

namespace Problem

variable {P : Problem α n e m} {L : Mat α n n} {workspace : Workspace α n slots}
  {limit limit' : Nat}

theorem solveFrom_of_zeroPivot (h : Triangular.hasZeroPivot L = true) :
    P.solveFrom L limit workspace = P.solveFrom L limit' workspace := by
  simp only [solveFrom, if_pos h]

theorem solveFrom_of_le (hle : limit ≤ limit')
    (h : ((P.start (Triangular.inverseLower L) (P.unconstrainedPoint L) workspace).run P limit
      (P.tolerance (Triangular.inverseLower L).trace)).1 ≠ .ok .iterationLimit) :
    P.solveFrom L limit workspace = P.solveFrom L limit' workspace := by
  simp only [solveFrom, Machine.run_of_le hle h]

end Problem

namespace Program

variable {program : Program α} {guess : Option (Guess α)} {buffers : Option (Buffers α)}
  {limit k k' : Nat}
  {answer : Solution α program.dimension program.equalityCount program.inequalityCount}
  {history history' : List (Admission α program.dimension slots program.inequalityCount)}
  {s t : Machine α program.dimension slots program.inequalityCount}

/-- Whether a solve ends without an answer, or with one that is not due to the limit. -/
def EndsBeforeLimit (program : Program α) (guess : Option (Guess α)) (limit : Nat)
    (buffers : Option (Buffers α)) : Prop :=
  ∀ answer, (program.solve guess limit buffers).outcome = .ok answer →
    answer.status ≠ .iterationLimit

/-- No limit has a part in what is checked before a solve starts, unless it is negative. -/
theorem prepare_limit (program : Program α) (guess : Option (Guess α)) (k k' : Nat) :
    program.prepare guess k = program.prepare guess k' := by
  simp only [prepare, if_neg (not_lt.mpr (Int.natCast_nonneg _))]

theorem Course.mono (hle : k ≤ k') (h : program.Course k buffers history s) :
    program.Course k' buffers history s := by
  obtain ⟨L, workspace, hfactor, hroom, hcourse⟩ := h
  refine ⟨L, workspace, hfactor, hroom, ?_⟩
  rw [Int.toNat_natCast] at hcourse ⊢
  exact hcourse.mono hle

/-- A solve that is not ended by its limit leaves the same in the workspace it has room in. -/
theorem solveFrom_of_le (hle : k ≤ k') {L : Mat α program.dimension program.dimension}
    {workspace : Workspace α program.dimension slots}
    (hprepare : program.prepare guess k = .ok L) (hconstraints : program.constraintCount ≠ 0)
    (hroom : program.room buffers = .ok ⟨slots, workspace⟩)
    (hends : program.EndsBeforeLimit guess k buffers) :
    program.problem.solveFrom L k workspace = program.problem.solveFrom L k' workspace := by
  have hfactor := factor_of_prepare hprepare
  cases hpivot : Triangular.hasZeroPivot L with
  | true => exact Problem.solveFrom_of_zeroPivot hpivot
  | false =>
    apply Problem.solveFrom_of_le hle
    intro hlimit
    rw [← tolerance_eq hfactor] at hlimit
    -- a run that ends at the limit has an answer with that status
    obtain ⟨history, last, hcourse, hend⟩ := Machine.exists_course_of_run program.problem k
      program.tolerance (program.origin L workspace)
    have hlast : program.Course k buffers history last := ⟨L, workspace, hfactor, hroom, hcourse⟩
    rcases hend with ⟨status, final, hstop, hrun⟩ | ⟨fault, final, -, hrun⟩
    · obtain rfl : status = .iterationLimit :=
        Except.ok.inj ((congrArg Prod.fst hrun).symm.trans hlimit)
      obtain ⟨answer, hanswer, hstatus, -⟩ :=
        exists_answer_of_pivots hpivot hprepare hconstraints hlast hstop
      exact hends answer hanswer hstatus
    · cases (congrArg Prod.fst hrun).symm.trans hlimit

/-- A solve that is not ended by its limit leaves the same under a greater one: the outcome, the
events and the workspace. -/
theorem solve_of_le (hle : k ≤ k') (hends : program.EndsBeforeLimit guess k buffers) :
    program.solve guess k buffers = program.solve guess k' buffers := by
  cases hprepare : program.prepare guess k with
  | error fault =>
    simp only [solve, ← prepare_limit program guess k k', hprepare]
  | ok L =>
    have hprepare' := (prepare_limit program guess k k').symm.trans hprepare
    by_cases hconstraints : program.constraintCount = 0
    · simp only [solve, hprepare, hprepare', if_pos hconstraints]
    · have hsame {slots : Nat} {workspace : Workspace α program.dimension slots}
          (hroom : program.room buffers = .ok ⟨slots, workspace⟩) :=
        solveFrom_of_le hle hprepare hconstraints hroom hends
      simp only [solve, hprepare, hprepare', if_neg hconstraints, Int.toNat_natCast]
      cases buffers with
      | none => simp only [hsame rfl]
      | some b =>
        cases hfit : b.fit program with
        | error fault => simp only [hfit]
        | ok workspace =>
          have hroom : program.room (some b) = .ok ⟨b.slots, workspace⟩ := by
            rw [room, hfit]
            rfl
          simp only [hfit, hsame hroom]

/-! ## The head at the limit -/

/-- An answer that is due to the limit is read off a head that has used it up. -/
theorem Concludes.head_of_limit {last : Machine α program.dimension slots program.inequalityCount}
    (h : program.Concludes k buffers answer history last)
    (hstatus : answer.status = .iterationLimit) : last.phase = .head ∧ last.iterations = k := by
  obtain ⟨final, hends, -⟩ := h.ends
  obtain ⟨spent, hspends⟩ := exists_spends h.course
  have hwithin : last.iterations ≤ k := by
    rw [← hspends.affordable.iterations_eq]
    exact hspends.affordable.iterations_le
  rw [hstatus] at hends
  cases hends with
  | limit hreached =>
    rw [Int.toNat_natCast] at hreached
    exact ⟨rfl, le_antisymm hwithin hreached⟩

/-- A solve is at the head of an iteration once. -/
theorem head_eq (h : program.Course limit buffers history s) (hs : s.phase = .head)
    (h' : program.Course limit buffers history' t) (ht : t.phase = .head)
    (hsame : s.iterations = t.iterations) : t = s := by
  rcases follows_or_follows h h' with ⟨later, hlater⟩ | ⟨later, hlater⟩
  · exact hlater.eq_of_head hs hsame.ge
  · exact (hlater.eq_of_head ht hsame.le).symm

/-- Whether an answer has what a solve has at its only head after so many iterations: the point, the
value, the active set and the multipliers. -/
def CarriesHead (program : Program α) (limit : Nat) (buffers : Option (Buffers α))
    (answer : Solution α program.dimension program.equalityCount program.inequalityCount)
    (iterations : Nat) : Prop :=
  ∃ (slots : Nat) (history : List (Admission α program.dimension slots program.inequalityCount))
    (head : Machine α program.dimension slots program.inequalityCount),
    program.Course limit buffers history head ∧ head.phase = .head ∧
      head.iterations = iterations ∧ answer.Carries head.iterate ∧
      ∀ history' head', program.Course limit buffers history' head' → head'.phase = .head →
        head'.iterations = iterations → head' = head

/-- An answer that is due to the limit is the head of a solve under any greater one. -/
theorem carriesHead_of_limit (hle : k ≤ k')
    (h : (program.solve guess k buffers).outcome = .ok answer)
    (hstatus : answer.status = .iterationLimit) :
    answer.iterations = k ∧ program.CarriesHead k' buffers answer k := by
  rcases unconstrained_or_concludes h with ⟨L, -, -, rfl⟩ | ⟨slots, history, last, hconcludes⟩
  · cases hstatus
  · obtain ⟨hphase, hcounted⟩ := hconcludes.head_of_limit hstatus
    have hcourse := hconcludes.course.mono hle
    refine ⟨hconcludes.iterations_eq.trans hcounted, slots, history, last, hcourse, hphase,
      hcounted, hconcludes.carries rfl, fun history' head' hhead' hphase' hcounted' => ?_⟩
    exact head_eq hcourse hphase hhead' hphase' (hcounted.trans hcounted'.symm)

end Program

/-! ## The value -/

namespace Program

variable {program : Program ℝ} {guess : Option (Guess ℝ)} {buffers : Option (Buffers ℝ)}
  {k k' : Nat} {answer : Solution ℝ program.dimension program.equalityCount program.inequalityCount}
  {history : List (Admission ℝ program.dimension slots program.inequalityCount)}
  {s : Machine ℝ program.dimension slots program.inequalityCount}

/-- A solve that comes by a head has an answer with a value that is no lower. -/
theorem exists_value_ge_of_head (hsymmetric : program.problem.quadratic.IsSymmetric)
    (hconstraints : program.constraintCount ≠ 0) (h : program.Course k buffers history s)
    (hs : s.phase = .head) {L : Mat ℝ program.dimension program.dimension}
    (hprepare : program.prepare guess k = .ok L) :
    ∃ answer, (program.solve guess k buffers).outcome = .ok answer ∧
      s.iterate.value ≤ answer.value := by
  have hpast (i : Nat) : s.phase ≠ .equality i := by
    rw [hs]
    exact fun hphase => by cases hphase
  obtain ⟨later, last, hlater, hend⟩ :=
    Machine.exists_course_of_run program.problem (k : Int).toNat program.tolerance s
  have hlast : program.Course k buffers (later ++ history) last := h.trans hlater
  rcases hend with ⟨status, final, hstop, -⟩ | ⟨fault, final, hfail, -⟩
  · obtain ⟨answer, hanswer, -, hconcludes⟩ :=
      exists_answer_of_course hprepare hconstraints hlast hstop
    refine ⟨answer, hanswer, ?_⟩
    obtain ⟨L', workspace, hfactor, -, hcourse⟩ := h
    have hcolumns := columns_origin hsymmetric hfactor workspace
    calc s.iterate.value = s.securedValue := (Machine.securedValue_of_head hs).symm
      _ ≤ last.securedValue := Machine.securedValue_le_of_course rfl
          (Machine.standing_start _ _ _ _ _) hcolumns hcourse hlater
      _ ≤ last.iterate.value := Machine.securedValue_le_value rfl
          (Machine.standing_start _ _ _ _ _) hcolumns (hcourse.trans hlater)
      _ = answer.value := hconcludes.value_eq.symm
  · exact absurd hfail (step_ne_fail hsymmetric hlast (hlater.past_equalities hpast))

/-- An answer of a solve has a value that one under a greater limit does not fall below. -/
theorem exists_value_ge (hsymmetric : program.problem.quadratic.IsSymmetric) (hle : k ≤ k')
    (h : (program.solve guess k buffers).outcome = .ok answer) :
    ∃ answer', (program.solve guess k' buffers).outcome = .ok answer' ∧
      answer.value ≤ answer'.value := by
  by_cases hstatus : answer.status = .iterationLimit
  · obtain ⟨L, hprepare⟩ : ∃ L, program.prepare guess k = .ok L := by
      cases hprepare : program.prepare guess k with
      | error fault =>
        simp only [solve, hprepare] at h
        cases h
      | ok L => exact ⟨L, rfl⟩
    have hprepare' := (prepare_limit program guess k k').symm.trans hprepare
    have hconstraints : program.constraintCount ≠ 0 := fun hnone => by
      simp only [solve, hprepare, if_pos hnone] at h
      cases h
      cases hstatus
    obtain ⟨slots, history, last, hconcludes⟩ := concludes_of_solve hconstraints h
    rw [hconcludes.value_eq]
    exact exists_value_ge_of_head hsymmetric hconstraints (hconcludes.course.mono hle)
      (hconcludes.head_of_limit hstatus).1 hprepare'
  · have hends : program.EndsBeforeLimit guess k buffers := fun answer' hanswer' => by
      cases hanswer'.symm.trans h
      exact hstatus
    exact ⟨answer, by rw [← solve_of_le hle hends, h], le_refl _⟩

/-- The limit on the iterations only cuts a solve short. In any arithmetic, one that is not ended by
its limit leaves the same under every greater one, whether it has an answer or a fault: the outcome,
the events and the workspace. One that is ended by its limit has begun just so many iterations, and
its answer has the point, the value, the active set and the multipliers that a solve under any
greater limit has at its head after as many. Over the real numbers that solve then has an answer
too, and its value is no lower. -/
theorem truncation_of_solve (hle : k ≤ k') :
    (∀ (α : Type) [Scalar α] (program : Program α) (guess : Option (Guess α))
      (buffers : Option (Buffers α)),
      (program.EndsBeforeLimit guess k buffers →
        program.solve guess k buffers = program.solve guess k' buffers) ∧
      ∀ answer, (program.solve guess k buffers).outcome = .ok answer →
        answer.status = .iterationLimit →
          answer.iterations = k ∧ program.CarriesHead k' buffers answer k) ∧
    ∀ (program : Program ℝ) (guess : Option (Guess ℝ)) (buffers : Option (Buffers ℝ)),
      program.problem.quadratic.IsSymmetric →
        ∀ answer, (program.solve guess k buffers).outcome = .ok answer →
          ∃ answer', (program.solve guess k' buffers).outcome = .ok answer' ∧
            answer.value ≤ answer'.value :=
  ⟨fun _ _ _ _ _ => ⟨solve_of_le hle, fun _ h hstatus => carriesHead_of_limit hle h hstatus⟩,
    fun _ _ _ hsymmetric _ h => exists_value_ge hsymmetric hle h⟩

/-- A solve that may begin no iteration ends at its outset. -/
theorem solve_wall_unbegun {p ν β : ℝ} (hp : 0 < p) (hfar : 100 * Scalar.epsilon / p < β) :
    ∃ answer : Solution ℝ 1 0 1, ((wall p ν β).solve none 0 none).outcome = .ok answer ∧
      answer.status = .iterationLimit ∧ answer.point.get 0 = 0 := by
  let it₀ := (Problem.wallHead p ν β).iterate
  obtain ⟨events, hstop⟩ : ∃ events, (wall p ν β).step 0 (Problem.wallHead p ν β) =
      .stop .iterationLimit ⟨{ it₀.evaluate (Problem.wall p ν β) with events }, .head, 0, 2⟩ :=
    Machine.stop_of_limit (far_wallHead hp hfar) (le_refl 0)
  obtain ⟨answer, hanswer, hstatus, hconcludes⟩ :=
    exists_answer_wall hp (le_refl 0) (course_wallHead hp 0) hstop
  refine ⟨answer, hanswer, hstatus, ?_⟩
  rw [hconcludes.point_eq]
  exact congrFun (Problem.point_origin _ _ hp) 0

/-- Before its first iteration the solve of a wall is at the unconstrained minimum, and one
iteration is all it needs. -/
theorem truncation_of_solve_wall :
    let program := wall 1 1 1
    program.EndsBeforeLimit none 1 none ∧
      program.solve none 1 none = program.solve none 100 none ∧
      ∃ answer answer' : Solution ℝ 1 0 1, (program.solve none 0 none).outcome = .ok answer ∧
        answer.status = .iterationLimit ∧ answer.point.get 0 = 0 ∧
        program.CarriesHead 100 none answer 0 ∧
        (program.solve none 100 none).outcome = .ok answer' ∧ answer'.point.get 0 = 1 ∧
        answer.value ≤ answer'.value := by
  intro program
  have hsymmetric : program.problem.quadratic.IsSymmetric := Problem.isSymmetric_nearest _ _
  obtain ⟨one, hone, hproper, -⟩ := solve_wall_within (le_refl 1)
  have hends : program.EndsBeforeLimit none 1 none := fun answer h => by
    cases h.symm.trans hone
    rw [hproper]
    decide
  obtain ⟨answer, hanswer, hstatus, hpoint⟩ : ∃ answer : Solution ℝ 1 0 1,
      (program.solve none 0 none).outcome = .ok answer ∧ answer.status = .iterationLimit ∧
        answer.point.get 0 = 0 := solve_wall_unbegun one_pos Scalar.far_one
  obtain ⟨hany, hvalue⟩ := truncation_of_solve (Nat.zero_le 100)
  obtain ⟨answer', hanswer', hlower⟩ := hvalue program none none hsymmetric answer hanswer
  obtain ⟨-, hcarries⟩ := (hany ℝ program none none).2 answer hanswer hstatus
  obtain ⟨last, hlast, -, hmet⟩ := solve_wall_one
  obtain rfl : last = answer' := Except.ok.inj (hlast.symm.trans hanswer')
  exact ⟨hends, ((truncation_of_solve (show 1 ≤ 100 by decide)).1 ℝ program none none).1 hends,
    answer, last, hanswer, hstatus, hpoint, hcarries, hlast, hmet, hlower⟩

end Program

end ActiveSet

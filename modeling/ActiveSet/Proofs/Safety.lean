import ActiveSet.Proofs.Convergence
import ActiveSet.Proofs.Definite
import ActiveSet.Proofs.Rollback
/-
  What can go wrong in a solve

  A solve of numbers of any size divides in five places, reads and writes its
  buffers by slot and by column, and looks for the constraint that it takes
  out. `Machine.DividesBy` lists the divisors of a state, `Machine.Within` the
  bounds of its indices. In every state of a solve over the reals no divisor
  is zero, every index is within bounds, and what is to be taken out is there
  (`Safe`), so a transition fails at a dependent equality only.

  Each divisor is kept from zero by a test of its own: the diagonal of the
  triangle by the pivot test of the fold that wrote it, which deletions and
  rollbacks preserve (`Factored.diagonal`); the curvature by the length of the
  direction, since the quadratic term is definite; an entry of the dual
  direction by its sign; a length by the threshold of the rotation; and
  `1 + cosine` by the sign that the rotation is given.

  What is left are the documented faults: the limit is negative, the
  quadratic term is not positive definite, or an equality depends on the
  others (`safety_of_solve`).
-/

open Matrix

namespace ActiveSet

variable {n e m slots : Nat}

namespace Machine

/-! ## Divisors and indices -/

/-- Whether a rotation is made for a pair in a state's fold or in one of its deletions. -/
def Turns (P : Problem ℝ n e m) (s : Machine ℝ n slots m) (g : Rotation ℝ) (a b : ℝ) : Prop :=
  ((a, b) ∈ s.foldPairs P ∨
    ∃ p < s.iterate.workspace.count, (a, b) ∈ s.iterate.workspace.erasePairs p) ∧
  Rotation.ofPair? a b Scalar.epsilon = some g

/-- What the transition from a state divides by. -/
inductive DividesBy (P : Problem ℝ n e m) (s : Machine ℝ n slots m) : ℝ → Prop
  /-- Back substitution divides by the diagonal of the triangle. -/
  | diagonal {c : Constraint ℝ n} (hc : s.inHand P = some c) {k : Fin n}
    (hk : k.val < s.iterate.workspace.count) :
    DividesBy P s (s.iterate.workspace.triangle.entry k k)
  /-- The step that makes the constraint in hand tight divides by the curvature, if it can move. -/
  | curvature {c : Constraint ℝ n} (hc : s.inHand P = some c)
    (hmove : (s.iterate.workspace.aim c.normal).canMove = true) :
    DividesBy P s ((s.iterate.workspace.aim c.normal).curvature c)
  /-- The ratio test divides by the positive entries of the dual direction. -/
  | ratio {c : Constraint ℝ n} (hc : s.inHand P = some c)
    {direction : Vector ℝ (s.iterate.workspace.aim c.normal).count}
    (hdirection : (s.iterate.workspace.aim c.normal).dualDirection = .ok direction) {k : Nat}
    (hpositive : 0 < Vec.extend direction k) : DividesBy P s (Vec.extend direction k)
  /-- The coefficients of a rotation are divided by the length of its pair. -/
  | length {g : Rotation ℝ} {a b : ℝ} (hturn : s.Turns P g a b) :
    DividesBy P s (Scalar.hypot a b)
  /-- The second column of a rotation is updated by `s / (1 + c)`. -/
  | cosine {g : Rotation ℝ} {a b : ℝ} (hturn : s.Turns P g a b) : DividesBy P s (1 + g.cosine)

/-- Whether the columns, the slots and the names of a state are there, with one slot more for the
constraint in hand. -/
structure Within (P : Problem ℝ n e m) (s : Machine ℝ n slots m) : Prop where
  columns : s.iterate.workspace.count ≤ n
  slots : s.iterate.workspace.count ≤ slots
  names : ∀ k < s.iterate.workspace.count,
    ∃ c, P.constraint? (s.iterate.workspace.label k) = some c

/-- Whether nothing can go wrong in a state. -/
structure Safe (P : Problem ℝ n e m) (s : Machine ℝ n slots m) : Prop where
  divides : ∀ x, s.DividesBy P x → x ≠ 0
  within : s.Within P
  /-- Back substitution gives a direction. -/
  aims : ∀ c, s.inHand P = some c →
    ∃ direction, (s.iterate.workspace.aim c.normal).dualDirection = .ok direction
  /-- What a step drops is found. -/
  drops : ∀ candidate excluded fresh, s.phase = .pass candidate excluded fresh →
    ∀ c, c = P.inequalities.get candidate →
      ∀ (direction : Vector ℝ (s.iterate.workspace.aim c.normal).count) (slack step : ℝ)
        (l : Label),
        let ws := s.iterate.workspace.aim c.normal
        ws.plan direction e slack (ws.curvature c) = .dual step l ∨
          ws.plan direction e slack (ws.curvature c) = .partway step l →
        ∃ ws', (ws.shift step direction).delete l e = .ok ws'

variable {P : Problem ℝ n e m} {tolerance : ℝ} {s : Machine ℝ n slots m}

theorem Turns.length_pos {g : Rotation ℝ} {a b : ℝ} (h : s.Turns P g a b) :
    0 < Scalar.hypot a b := by
  refine Scalar.epsilon_pos.trans_le (not_lt.mp fun hshort => ?_)
  cases (Rotation.ofPair?_eq_none.mpr hshort).symm.trans h.2

/-- No divisor is zero. -/
theorem DividesBy.ne_zero {history : List (Admission ℝ n slots m)}
    (hcolumns : Columns P history s.iterate.snapshot) {x : ℝ} (h : s.DividesBy P x) : x ≠ 0 := by
  cases h with
  | @diagonal _ _ k hk =>
    have hlarge : Scalar.epsilon < |s.iterate.workspace.triangle.entry k k| :=
      hcolumns.factored.diagonal k hk
    exact abs_pos.mp (Scalar.epsilon_pos.trans hlarge)
  | curvature _ hmove => exact (hcolumns.factored.curvature_pos_of_canMove hmove).ne'
  | ratio _ _ hpositive => exact hpositive.ne'
  | length hturn => exact hturn.length_pos.ne'
  | cosine hturn =>
    have hnonneg := (Rotation.clears_ofPair? Scalar.epsilon_pos hturn.2).cosine_nonneg
    exact (add_pos_of_pos_of_nonneg one_pos hnonneg).ne'

theorem Standing.within (hs : Standing P tolerance s) (hcount : s.iterate.workspace.count ≤ n)
    (hroom : e + m ≤ slots) : s.Within P := by
  obtain ⟨met, hmet, hseating⟩ := hs.exists_seating
  have hfew := hseating.count_le
  exact ⟨hcount, by omega, fun k hk => hseating.exists_constraint P hmet hk⟩

theorem Standing.safe (hs : Standing P tolerance s) {history : List (Admission ℝ n slots m)}
    (hcolumns : Columns P history s.iterate.snapshot) (hroom : e + m ≤ slots) : s.Safe P where
  divides _ hx := hx.ne_zero hcolumns
  within := hs.within hcolumns.factored.count_le hroom
  aims c _ := hcolumns.factored.exists_dualDirection c.normal
  drops candidate excluded fresh hphase c hc direction slack step l := by
    obtain ⟨it, _, iterations, evaluations⟩ := s
    cases hphase
    exact fun hplan => (Iterate.Adds.exists_delete hs rfl hplan).2

/-- An equality fails only if it depends on those before it. -/
theorem fault_of_equality {history : List (Admission ℝ n slots m)}
    (hcolumns : Columns P history s.iterate.snapshot)
    (hroom : s.iterate.workspace.count ≤ slots) {i : Fin e} {fault : Fault}
    {s' : Machine ℝ n slots m} (h : s.equalityStep P i = .fail fault s') :
    fault = .dependentEquality i := by
  rcases fault_of_equalityStep hroom h with rfl | hdependent
  · obtain ⟨direction, hdirection⟩ :=
      hcolumns.factored.exists_dualDirection (P.equalities.get i).normal
    simp only [equalityStep, hdirection] at h
    split at h
    · next hfailed =>
      refine absurd hfailed (Workspace.place_ne_error ?_)
      exact hroom
    · split at h <;> cases h
  · exact hdependent

end Machine

/-! ## The outcome -/

namespace Program

variable {program : Program ℝ} {limit : Int} {buffers : Option (Buffers ℝ)}
  {guess : Option (Guess ℝ)}

/-- Whether a guess, if there is one, has an entry for every variable. -/
def Guesses (program : Program ℝ) (guess : Option (Guess ℝ)) : Prop :=
  ∀ g, guess = some g → ∃ t, g.values.tensor = .ok t ∧ t.size = program.dimension

theorem guesses_none (program : Program ℝ) : program.Guesses none := fun _ h => nomatch h

/-- What a solve checks before it starts. -/
theorem prepare_eq (hguess : program.Guesses guess) (hlimit : 0 ≤ limit) :
    program.prepare guess limit = Dense.factor program.problem.quadratic := by
  unfold prepare
  simp only [if_neg (not_lt.mpr hlimit)]
  cases guess with
  | none => rfl
  | some g =>
    obtain ⟨t, ht, hsize⟩ := hguess g rfl
    simp only [ht]
    show (if t.size ≠ program.dimension then _ else _) = _
    rw [if_neg (not_not.mpr hsize)]

theorem factor_eq_error (hsymmetric : program.problem.quadratic.IsSymmetric)
    (hindefinite : ¬ program.problem.quadratic.toMatrix.PosDef) :
    Dense.factor program.problem.quadratic = .error .notPositiveDefinite := by
  have hnone : Cholesky.factor? program.problem.quadratic = none :=
    Option.eq_none_iff_forall_ne_some.mpr fun L hL =>
      hindefinite (Cholesky.posDef_of_factor? hsymmetric hL)
  rw [Cholesky.factor_eq, hnone]

variable (hsymmetric : program.problem.quadratic.IsSymmetric)
include hsymmetric

section Course

variable {slots : Nat}
  {history : List (Admission ℝ program.dimension slots program.inequalityCount)}
  {s : Machine ℝ program.dimension slots program.inequalityCount}

theorem safe_of_course (h : program.Course limit buffers history s) :
    s.Safe program.problem := by
  have hstanding := standing_of_course h
  have hcolumns := columns_of_course hsymmetric h
  obtain ⟨L, workspace, -, hroom, -⟩ := h
  exact hstanding.safe hcolumns (room_le hroom)

/-- A transition of a solve fails at a dependent equality only. -/
theorem dependent_of_fail (h : program.Course limit buffers history s) {fault : Fault}
    {s' : Machine ℝ program.dimension slots program.inequalityCount}
    (hfail : program.step limit s = .fail fault s') :
    ∃ i : Fin program.equalityCount, s.phase = .equality i ∧ fault = .dependentEquality i := by
  by_cases hpast : ∀ i, s.phase ≠ .equality i
  · exact absurd hfail (step_ne_fail hsymmetric h hpast)
  · push Not at hpast
    obtain ⟨i, hphase⟩ := hpast
    have hwithin := (safe_of_course hsymmetric h).within
    have hcolumns := columns_of_course hsymmetric h
    simp only [step, Machine.step, hphase] at hfail
    split at hfail
    · next hi =>
      exact ⟨⟨i, hi⟩, hphase, Machine.fault_of_equality hcolumns hwithin.slots hfail⟩
    · cases hfail

end Course

/-- How a solve ends whose arguments fit, and the state that it ends in. -/
theorem exists_end (hguess : program.Guesses guess)
    (hroom : ∃ room, program.room buffers = .ok room) (hlimit : 0 ≤ limit)
    (hdefinite : program.problem.quadratic.toMatrix.PosDef)
    (hconstraints : program.constraintCount ≠ 0) :
    ∃ (slots : Nat)
      (history : List (Admission ℝ program.dimension slots program.inequalityCount))
      (last final : Machine ℝ program.dimension slots program.inequalityCount),
      program.Course limit buffers history last ∧
        ((∃ status answer, program.step limit last = .stop status final ∧
            (program.solve guess limit buffers).outcome = .ok answer) ∨
          ∃ i : Fin program.equalityCount, last.phase = .equality i ∧
            program.step limit last = .fail (.dependentEquality i) final ∧
            (program.solve guess limit buffers).outcome = .error (.dependentEquality i)) := by
  obtain ⟨L, hL⟩ := Cholesky.exists_factor? hsymmetric hdefinite
  have hfactor : Dense.factor program.problem.quadratic = .ok L := Cholesky.factor_eq_ok.mpr hL
  have hprepare : program.prepare guess limit = .ok L := (prepare_eq hguess hlimit).trans hfactor
  obtain ⟨⟨slots, workspace⟩, hroom⟩ := hroom
  obtain ⟨history, last, hcourse, hend⟩ := Machine.exists_course_of_run program.problem
    limit.toNat program.tolerance (program.origin L workspace)
  have hlast : program.Course limit buffers history last :=
    ⟨L, workspace, hfactor, hroom, hcourse⟩
  rcases hend with ⟨status, final, hstop, -⟩ | ⟨fault, final, hfail, -⟩
  · obtain ⟨answer, hanswer, -⟩ := exists_answer_of_course hprepare hconstraints hlast hstop
    exact ⟨slots, history, last, final, hlast, .inl ⟨status, answer, hstop, hanswer⟩⟩
  · obtain ⟨i, hphase, rfl⟩ := dependent_of_fail hsymmetric hlast hfail
    exact ⟨slots, history, last, final, hlast,
      .inr ⟨i, hphase, hfail, outcome_of_failed hprepare hconstraints hlast hfail⟩⟩

/-- Without constraints the minimum is the answer. -/
theorem exists_answer_of_unconstrained (hguess : program.Guesses guess) (hlimit : 0 ≤ limit)
    (hdefinite : program.problem.quadratic.toMatrix.PosDef)
    (hconstraints : program.constraintCount = 0) :
    ∃ answer, (program.solve guess limit buffers).outcome = .ok answer := by
  obtain ⟨L, hL⟩ := Cholesky.exists_factor? hsymmetric hdefinite
  have hprepare : program.prepare guess limit = .ok L :=
    (prepare_eq hguess hlimit).trans (Cholesky.factor_eq_ok.mpr hL)
  simp only [solve, hprepare, if_pos hconstraints]
  exact ⟨_, rfl⟩

/-- A solve whose arguments fit has an answer, or stops at a dependent equality. -/
theorem answered_or_dependent (hguess : program.Guesses guess)
    (hroom : ∃ room, program.room buffers = .ok room) (hlimit : 0 ≤ limit)
    (hdefinite : program.problem.quadratic.toMatrix.PosDef) :
    (∃ answer, (program.solve guess limit buffers).outcome = .ok answer) ∨
      ∃ i : Fin program.equalityCount,
        (program.solve guess limit buffers).outcome = .error (.dependentEquality i) := by
  by_cases hconstraints : program.constraintCount = 0
  · exact .inl (exists_answer_of_unconstrained hsymmetric hguess hlimit hdefinite hconstraints)
  · obtain ⟨-, -, -, -, -, ⟨-, answer, -, hanswer⟩ | ⟨i, -, -, hfailed⟩⟩ :=
      exists_end hsymmetric hguess hroom hlimit hdefinite hconstraints
    · exact .inl ⟨answer, hanswer⟩
    · exact .inr ⟨i, hfailed⟩

/-- The faults of a solve whose guess and workspace fit. It has a negative limit, a quadratic term
that is not positive definite, or an equality that depends on those before it; in every other case
it has an answer. In every state that it comes to no divisor is zero, every index is within bounds
and every constraint that is dropped is found. -/
theorem safety_of_solve (hguess : program.Guesses guess)
    (hroom : ∃ room, program.room buffers = .ok room) (limit : Int) :
    ((limit < 0 → (program.solve guess limit buffers).outcome = .error .negativeIterationLimit) ∧
      (0 ≤ limit → ¬ program.problem.quadratic.toMatrix.PosDef →
        (program.solve guess limit buffers).outcome = .error .notPositiveDefinite) ∧
      (0 ≤ limit → program.problem.quadratic.toMatrix.PosDef →
        (∃ answer, (program.solve guess limit buffers).outcome = .ok answer) ∨
          ∃ i : Fin program.equalityCount,
            (program.solve guess limit buffers).outcome = .error (.dependentEquality i))) ∧
    ∀ (slots : Nat)
      (history : List (Admission ℝ program.dimension slots program.inequalityCount))
      (s : Machine ℝ program.dimension slots program.inequalityCount),
      program.Course limit buffers history s →
        s.Safe program.problem ∧
          ∀ fault s', program.step limit s = .fail fault s' →
            ∃ i : Fin program.equalityCount,
              s.phase = .equality i ∧ fault = .dependentEquality i := by
  refine ⟨⟨?_, ?_, answered_or_dependent hsymmetric hguess hroom⟩, ?_⟩
  · intro hlimit
    have hprepare : program.prepare guess limit = .error .negativeIterationLimit := by
      simp only [prepare, if_pos hlimit]
      rfl
    simp only [solve, hprepare]
  · intro hlimit hindefinite
    have hprepare := (prepare_eq hguess hlimit).trans (factor_eq_error hsymmetric hindefinite)
    simp only [solve, hprepare]
  · intro slots history s h
    exact ⟨safe_of_course hsymmetric h, fun fault s' hfail => dependent_of_fail hsymmetric h hfail⟩

omit hsymmetric

/-- With a guess of the right length the bound of the wall is met, and without iterations the limit
is refused. Where the bound is tried the step to it divides by one. -/
theorem safety_of_solve_wall :
    let guess : Option (Guess ℝ) := some ⟨.list [.number 7], true⟩
    (∃ answer : Solution ℝ 1 0 1, ((wall 1 1 1).solve guess 100 none).outcome = .ok answer) ∧
      ((wall 1 1 1).solve guess (-1) none).outcome = .error .negativeIterationLimit ∧
      ∃ (history : List (Admission ℝ 1 1 1)) (s : Machine ℝ 1 1 1),
        (wall 1 1 1).Course 100 none history s ∧ s.DividesBy (Problem.wall 1 1 1) 1 ∧
          s.Safe (Problem.wall 1 1 1) := by
  intro guess
  have hsymmetric : (wall 1 1 1).problem.quadratic.IsSymmetric := Problem.isSymmetric_nearest _ _
  have hguess : (wall 1 1 1).Guesses guess := by
    intro g hg
    obtain rfl := Option.some.inj hg
    exact ⟨_, rfl, rfl⟩
  have hroom : ∃ room, (wall 1 1 1).room none = .ok room := ⟨_, rfl⟩
  have hdefinite : (wall 1 1 1).problem.quadratic.toMatrix.PosDef :=
    Cholesky.posDef_of_factor? hsymmetric
      (Cholesky.factor_eq_ok.mp (Problem.factor_nearest _ _ one_pos))
  obtain ⟨⟨-, -, hanswered⟩, hstates⟩ := safety_of_solve hsymmetric hguess hroom 100
  obtain ⟨⟨hnegative, -, -⟩, -⟩ := safety_of_solve hsymmetric hguess hroom (-1)
  refine ⟨?_, hnegative (by decide), ?_⟩
  · rcases hanswered (by decide) hdefinite with hanswer | ⟨i, -⟩
    · exact hanswer
    · exact i.elim0
  · have hfar : 100 * Scalar.epsilon / 1 < (1 : ℝ) := by
      rw [Scalar.epsilon_real]
      norm_num
    obtain ⟨s, it, fresh, hbegun, -, hchosen, houtset⟩ :=
      exists_outset one_pos hfar (show (1 : Int) ≤ 100 by decide)
    have hcourse := ((course_wallHead one_pos 100).next hbegun).next hchosen
    refine ⟨_, _, hcourse, ?_, (hstates _ _ _ hcourse).1⟩
    -- the curvature of the direction to the bound
    have hnormal := Problem.get_normal_wall 1 1 1
    have hdivisor := Machine.DividesBy.curvature (P := Problem.wall 1 1 1)
      (s := ⟨it, .pass (0 : Fin 1) (Vector.replicate 1 false) fresh, 1, 2⟩) rfl
      ((houtset.canMove_iff hnormal).mpr (by simpa using Scalar.epsilon_lt_one))
    have hcurvature := houtset.curvature_eq hnormal
    rw [mul_one, mul_one, mul_one] at hcurvature
    rwa [hcurvature] at hdivisor

end Program

end ActiveSet

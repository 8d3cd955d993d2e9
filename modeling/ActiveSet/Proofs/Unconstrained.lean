import ActiveSet.Proofs.Arrays
import ActiveSet.Proofs.Safety
/-
  Minimization without constraints

  A quadratic program without constraints asks for the least value of
  `½ xᵀA x + bᵀx` over all points. Only the symmetric part of `A` is factored,
  and no more is needed: it has the quadratic form of `A` (`form_symmetrized`),
  so the objective of the program is that of the matrix as it was given
  (`objective_ofParts`), and the factorization succeeds exactly if the form is
  positive away from zero (`posDef_symmetrized_iff`).

  Two substitutions then give the point at which the gradient vanishes. It is
  the only minimum, and `½ bᵀx` is its value (`exists_minimum_of_free`). The
  limit on the iterations has no part in it.
-/

open Matrix

namespace ActiveSet

variable {n e m : Nat}

/-! ## Programs from arrays -/

namespace Program

variable {α : Type} [Scalar α]

omit [Scalar α] in
theorem linearTerm_of_lists {input : Nested α} {b : Vector α n} (hn : 0 < n)
    (h : input.Lists b) : linearTerm input = .ok ⟨n, b⟩ := by
  obtain ⟨t, ht, hflat⟩ := h.exists_flat
  have hsize : t.size ≠ 0 := by
    rw [show t.size = n from congrArg Sigma.fst hflat]
    exact hn.ne'
  calc linearTerm input = .ok ⟨t.size, t.flat⟩ := by
        simp only [linearTerm, ht, bind, Except.bind, if_neg hsize]
        rfl
    _ = .ok ⟨n, b⟩ := by rw [hflat]

theorem quadraticTerm_of_tabulates {input : Nested α} {A : Mat α n n} (h : input.Tabulates A) :
    quadraticTerm input n = .ok A := by
  obtain ⟨t, ht, hshape, rfl⟩ := h
  simp only [quadraticTerm, ht, bind, Except.bind, hshape, ne_eq, not_true_eq_false, if_false]
  rfl

/-- A square matrix and a vector of the same dimension are a program without constraints. -/
theorem ofBlocks_of_free {quadratic linear : Nested α} {A : Mat α n n} {b : Vector α n}
    (hn : 0 < n) (hquadratic : quadratic.Tabulates A) (hlinear : linear.Lists b) :
    ofBlocks quadratic linear ⟨none, none⟩ ⟨none, none⟩ = .ok ⟨Problem.ofParts A b [] []⟩ := by
  simp only [ofBlocks, linearTerm_of_lists hn hlinear, bind, Except.bind,
    quadraticTerm_of_tabulates hquadratic]
  rfl

end Program

/-! ## The symmetric part -/

namespace Mat

variable (A : Mat ℝ n n)

/-- The quadratic form `xᵀA x`. -/
def form (x : Fin n → ℝ) : ℝ := x ⬝ᵥ A.toMatrix *ᵥ x

theorem toMatrix_symmetrized :
    A.symmetrized.toMatrix = (1 / 2 : ℝ) • (A.toMatrix + A.toMatrixᵀ) := by
  ext i j
  simp [symmetrized]

/-- The symmetric part has the same quadratic form. -/
theorem form_symmetrized (x : Fin n → ℝ) : A.symmetrized.form x = A.form x := by
  have htranspose : x ⬝ᵥ A.toMatrixᵀ *ᵥ x = x ⬝ᵥ A.toMatrix *ᵥ x := by
    rw [Matrix.mulVec_transpose, dotProduct_comm, ← Matrix.dotProduct_mulVec]
  calc A.symmetrized.form x
      = 1 / 2 * (x ⬝ᵥ A.toMatrix *ᵥ x + x ⬝ᵥ A.toMatrixᵀ *ᵥ x) := by
        rw [form, toMatrix_symmetrized, Matrix.smul_mulVec, dotProduct_smul, Matrix.add_mulVec,
          dotProduct_add, smul_eq_mul]
    _ = A.form x := by
        rw [htranspose, form]
        ring

theorem isHermitian_symmetrized : A.symmetrized.toMatrix.IsHermitian := by
  ext i j
  exact A.isSymmetric_symmetrized j i

/-- The symmetric part is positive definite exactly if the form is positive away from zero. -/
theorem posDef_symmetrized_iff :
    A.symmetrized.toMatrix.PosDef ↔ ∀ x, x ≠ 0 → 0 < A.form x := by
  rw [Matrix.posDef_iff_dotProduct_mulVec]
  simp only [star_trivial, A.isHermitian_symmetrized, true_and]
  exact forall_congr' fun x => imp_congr_right fun _ => by rw [← form_symmetrized, form]

theorem not_posDef_symmetrized_iff :
    ¬ A.symmetrized.toMatrix.PosDef ↔ ∃ x, x ≠ 0 ∧ A.form x ≤ 0 := by
  rw [posDef_symmetrized_iff]
  push Not
  rfl

end Mat

/-- The value `½ xᵀA x + bᵀx`, whether the matrix is symmetric or not. -/
noncomputable def quadraticValue (A : Mat ℝ n n) (b x : Vector ℝ n) : ℝ :=
  Scalar.half * A.form x.get + b.get ⬝ᵥ x.get

/-- The objective of a program is that of the matrix it was given. -/
theorem Problem.objective_ofParts (A : Mat ℝ n n) (b : Vector ℝ n)
    (equalities inequalities : List (Constraint ℝ n)) (x : Vector ℝ n) :
    (Problem.ofParts A b equalities inequalities).objective x = quadraticValue A b x := by
  rw [objective_eq, quadraticValue, ← A.form_symmetrized, Scalar.half_real]
  rfl

/-! ## Programs without constraints -/

/-- Whether a function has its least value at a point, and at no other. -/
def IsLeastAt (f : Vector ℝ n → ℝ) (x : Vector ℝ n) : Prop :=
  ∀ y, f x ≤ f y ∧ (f y = f x → y = x)

namespace Program

variable {program : Program ℝ} {limit : Int} {buffers : Option (Buffers ℝ)}
  {guess : Option (Guess ℝ)}

/-- A matrix that is not positive definite is refused. -/
theorem outcome_of_indefinite (hsymmetric : program.problem.quadratic.IsSymmetric)
    (hguess : program.Guesses guess) (hlimit : 0 ≤ limit)
    (hindefinite : ¬ program.problem.quadratic.toMatrix.PosDef) :
    (program.solve guess limit buffers).outcome = .error .notPositiveDefinite := by
  have hprepare := (prepare_eq hguess hlimit).trans (factor_eq_error hsymmetric hindefinite)
  simp only [solve, hprepare]

/-- Without constraints a solve gives the only minimum with its value. -/
theorem exists_minimum_of_free (hsymmetric : program.problem.quadratic.IsSymmetric)
    (hnone : program.constraintCount = 0) (hguess : program.Guesses guess) (hlimit : 0 ≤ limit)
    (hdefinite : program.problem.quadratic.toMatrix.PosDef) :
    ∃ answer, (program.solve guess limit buffers).outcome = .ok answer ∧
      answer.status = .proper ∧ answer.value = program.problem.objective answer.point ∧
      IsLeastAt program.problem.objective answer.point := by
  obtain ⟨L, hL⟩ := Cholesky.exists_factor? hsymmetric hdefinite
  have hfactor : Dense.factor program.problem.quadratic = .ok L := Cholesky.factor_eq_ok.mpr hL
  have hprepare := (prepare_eq hguess hlimit).trans hfactor
  have hgradient := gradient_unconstrainedPoint hsymmetric hfactor
  let x := program.problem.unconstrainedPoint L
  refine ⟨Solution.unconstrained program.problem x (program.problem.unconstrainedValue x), ?_,
    rfl, unconstrainedValue_eq hgradient, fun y => ?_⟩
  · simp only [solve, hprepare, if_pos hnone]
    rfl
  · apply objective_le_of_gradient hsymmetric (Cholesky.mul_basis hsymmetric hL)
    show 0 ≤ (y.get - x.get) ⬝ᵥ (program.problem.gradient x).get
    rw [hgradient, dotProduct_zero]

/-- Without constraints every square matrix is dealt with rightly, symmetric or not. The solve fails
exactly if the quadratic form is not positive away from zero, and then because the matrix is not
positive definite. Otherwise its point is the only one at which `½ xᵀA x + bᵀx` is least, for the
matrix as it was given, and its value is the value there. The limit has no part in it. -/
theorem minimum_of_ofBlocks {quadratic linear : Nested ℝ} {A : Mat ℝ n n} {b : Vector ℝ n}
    (hn : 0 < n) (hquadratic : quadratic.Tabulates A) (hlinear : linear.Lists b) (limit : Nat) :
    let program : Program ℝ := ⟨Problem.ofParts A b [] []⟩
    ofBlocks quadratic linear ⟨none, none⟩ ⟨none, none⟩ = .ok program ∧
      (∀ fault, (program.solve none limit none).outcome = .error fault ↔
        fault = .notPositiveDefinite ∧ ∃ x, x ≠ 0 ∧ A.form x ≤ 0) ∧
      ((∀ x, x ≠ 0 → 0 < A.form x) →
        ∃ answer : Solution ℝ n 0 0, (program.solve none limit none).outcome = .ok answer ∧
          answer.status = .proper ∧ answer.value = quadraticValue A b answer.point ∧
          IsLeastAt (quadraticValue A b) answer.point) := by
  intro program
  have hsymmetric : program.problem.quadratic.IsSymmetric := Mat.isSymmetric_symmetrized A
  have hguess : program.Guesses none := program.guesses_none
  have hlimit : 0 ≤ (limit : Int) := Int.natCast_nonneg limit
  have hobjective : program.problem.objective = quadraticValue A b :=
    funext fun x => Problem.objective_ofParts A b [] [] x
  have hanswered (hpositive : ∀ x, x ≠ 0 → 0 < A.form x) :
      ∃ answer : Solution ℝ n 0 0, (program.solve none limit none).outcome = .ok answer ∧
        answer.status = .proper ∧ answer.value = quadraticValue A b answer.point ∧
        IsLeastAt (quadraticValue A b) answer.point := by
    rw [← hobjective]
    exact exists_minimum_of_free hsymmetric rfl hguess hlimit
      (A.posDef_symmetrized_iff.mpr hpositive)
  refine ⟨ofBlocks_of_free hn hquadratic hlinear, fun fault => ?_, hanswered⟩
  by_cases hpositive : ∀ x, x ≠ 0 → 0 < A.form x
  · obtain ⟨answer, hanswer, -⟩ := hanswered hpositive
    rw [hanswer]
    constructor
    · intro h
      cases h
    · rintro ⟨-, x, hx, hle⟩
      exact absurd (hpositive x hx) (not_lt.mpr hle)
  · have hindefinite : ¬ program.problem.quadratic.toMatrix.PosDef := fun hdefinite =>
      hpositive (A.posDef_symmetrized_iff.mp hdefinite)
    rw [outcome_of_indefinite hsymmetric hguess hlimit hindefinite, Except.error.injEq]
    constructor
    · rintro rfl
      exact ⟨rfl, A.not_posDef_symmetrized_iff.mp hindefinite⟩
    · exact fun h => h.1.symm

end Program

/-! ### Two matrices that are not symmetric -/

/-- The matrix with the rows `(a, b)` and `(c, d)`. -/
def Mat.twoByTwo (a b c d : ℝ) : Mat ℝ 2 2 := ⟨#v[#v[a, b], #v[c, d]]⟩

theorem Mat.form_twoByTwo (a b c d : ℝ) (x : Fin 2 → ℝ) :
    (twoByTwo a b c d).form x = a * x 0 ^ 2 + (b + c) * (x 0 * x 1) + d * x 1 ^ 2 := by
  have hrow (i : Fin 2) : ((twoByTwo a b c d).toMatrix *ᵥ x) i =
      (twoByTwo a b c d).entry i 0 * x 0 + (twoByTwo a b c d).entry i 1 * x 1 :=
    Fin.sum_univ_two fun j => (twoByTwo a b c d).entry i j * x j
  calc (twoByTwo a b c d).form x
      = x 0 * (a * x 0 + b * x 1) + x 1 * (c * x 0 + d * x 1) := by
        rw [form, dotProduct, Fin.sum_univ_two, hrow, hrow]
        rfl
    _ = _ := by ring

theorem Nested.tabulates_twoByTwo (a b c d : ℝ) :
    (Nested.list [.list [.number a, .number b], .list [.number c, .number d]]).Tabulates
      (Mat.twoByTwo a b c d) := by
  refine ⟨⟨[2, 2], [a, b, c, d], rfl⟩, rfl, rfl, Mat.ext_entry fun i j => ?_⟩
  fin_cases i <;> fin_cases j <;> rfl

theorem Nested.lists_pair (a b : ℝ) : (Nested.list [.number a, .number b]).Lists #v[a, b] :=
  ⟨⟨[2], [a, b], rfl⟩, rfl, rfl⟩

/-- The least value of `½ x² + x y + y² - x - y` is found from a matrix with all of `x y` on one
side of the diagonal. A quarter turn has the quadratic form zero, and is refused. -/
theorem Program.minimum_of_ofBlocks_skewed :
    let skewed : Program ℝ := ⟨Problem.ofParts (Mat.twoByTwo 1 2 0 2) #v[-1, -1] [] []⟩
    let turn : Program ℝ := ⟨Problem.ofParts (Mat.twoByTwo 0 (-1) 1 0) #v[-1, -1] [] []⟩
    (ofBlocks (.list [.list [.number 1, .number 2], .list [.number 0, .number 2]])
        (.list [.number (-1), .number (-1)]) ⟨none, none⟩ ⟨none, none⟩ = .ok skewed ∧
      ∃ answer : Solution ℝ 2 0 0, (skewed.solve none 0 none).outcome = .ok answer ∧
        answer.point = #v[1, 0] ∧ answer.value = -1 / 2) ∧
    ofBlocks (.list [.list [.number 0, .number (-1)], .list [.number 1, .number 0]])
        (.list [.number (-1), .number (-1)]) ⟨none, none⟩ ⟨none, none⟩ = .ok turn ∧
      (turn.solve none 0 none).outcome = .error .notPositiveDefinite := by
  intro skewed turn
  have hvalue (x : Vector ℝ 2) : quadraticValue (Mat.twoByTwo 1 2 0 2) #v[-1, -1] x =
      1 / 2 * (x.get 0 + x.get 1 - 1) ^ 2 + 1 / 2 * x.get 1 ^ 2 - 1 / 2 := by
    have hlinear : (#v[-1, -1] : Vector ℝ 2).get ⬝ᵥ x.get = -1 * x.get 0 + -1 * x.get 1 :=
      Fin.sum_univ_two _
    rw [quadraticValue, Mat.form_twoByTwo, hlinear, Scalar.half_real]
    ring
  have hpositive : ∀ x, x ≠ 0 → 0 < (Mat.twoByTwo 1 2 0 2).form x := by
    intro x hx
    have hsquares : (Mat.twoByTwo 1 2 0 2).form x = (x 0 + x 1) ^ 2 + x 1 ^ 2 := by
      rw [Mat.form_twoByTwo]
      ring
    rw [hsquares]
    refine lt_of_le_of_ne (by positivity) fun hzero => hx ?_
    have hsecond : x 1 = 0 := by nlinarith [sq_nonneg (x 0 + x 1), sq_nonneg (x 1)]
    have hfirst : x 0 = 0 := by nlinarith [sq_nonneg (x 0 + x 1), sq_nonneg (x 1)]
    funext i
    fin_cases i
    · exact hfirst
    · exact hsecond
  obtain ⟨hskewed, -, hanswered⟩ := minimum_of_ofBlocks two_pos
    (Nested.tabulates_twoByTwo 1 2 0 2) (Nested.lists_pair (-1) (-1)) 0
  obtain ⟨hturn, hrefused, -⟩ := minimum_of_ofBlocks two_pos
    (Nested.tabulates_twoByTwo 0 (-1) 1 0) (Nested.lists_pair (-1) (-1)) 0
  obtain ⟨answer, hanswer, -, hread, hleast⟩ := hanswered hpositive
  have hmark : quadraticValue (Mat.twoByTwo 1 2 0 2) #v[-1, -1] #v[1, 0] = -1 / 2 := by
    rw [hvalue]
    norm_num [Vec.get_eq_getElem]
  -- no value is below that at the mark, so the minimum is there
  have hpoint : (#v[1, 0] : Vector ℝ 2) = answer.point := by
    refine (hleast #v[1, 0]).2 (le_antisymm ?_ (hleast #v[1, 0]).1)
    rw [hmark, hvalue]
    nlinarith [sq_nonneg (answer.point.get 0 + answer.point.get 1 - 1),
      sq_nonneg (answer.point.get 1)]
  refine ⟨⟨hskewed, answer, hanswer, hpoint.symm, ?_⟩, hturn,
    (hrefused _).mpr ⟨rfl, ![1, 0], ?_, ?_⟩⟩
  · rw [hread, ← hpoint, hmark]
  · exact fun hzero => one_ne_zero (congrFun hzero 0)
  · rw [Mat.form_twoByTwo]
    norm_num

end ActiveSet

import ActiveSet.Proofs.Arrays
import ActiveSet.Proofs.Assembly
import ActiveSet.Proofs.Balance
import ActiveSet.Proofs.Residuals
import ActiveSet.Regression
/-
  Least squares as a quadratic program

  A weight enters a fit as a root, on the design matrix and on the
  observations, and comes back squared: in the inner products of the columns,
  in those with the observations, and in the residuals. Over the real numbers
  the sum of the squared residuals is therefore twice the objective plus a
  number that the coefficients do not enter (`residualSum_eq_objective`), and
  rows with whole weights may as well be repeated (`gram_repeated`,
  `linear_repeated`).

  Regions may have infinite bounds, or none, so a fit is taken over the
  extended numbers. Its own data are real, and all that is computed from them
  is what it is over the real numbers (`Observations.lift`). What is returned
  is at a real point, whatever the bounds of the regions are.
-/

open Matrix

namespace ActiveSet

variable {N p : Nat}

/-! ## The identity over the real numbers -/

namespace Observations

section Exact

variable (o : Observations ℝ N p)

/-- An inner product of two columns, row by row. -/
theorem entry_gram (a b : Fin p) :
    o.gram.entry a b = ∑ j, o.design.entry j a * o.design.entry j b := by
  have hentry (c : Fin p) (j : Fin N) : (o.design.transpose.row c).get j = o.design.entry j c :=
    Mat.entry_ofFn _ c j
  rw [gram, Mat.entry_ofFn, Vec.dot_eq]
  exact Finset.sum_congr rfl fun j _ => by rw [hentry, hentry]

theorem toMatrix_gram : o.gram.toMatrix = o.design.toMatrixᵀ * o.design.toMatrix := by
  ext a b
  rw [Mat.toMatrix_apply, entry_gram, Matrix.mul_apply]
  rfl

theorem get_linear : o.linear.get = -(o.design.toMatrixᵀ *ᵥ o.observed.get) := by
  rw [linear, Vec.get_neg, Mat.get_mulVec, Mat.toMatrix_transpose]

/-- An inner product of a column and the observations, row by row. -/
theorem get_linear_eq_sum (a : Fin p) :
    o.linear.get a = -∑ j, o.design.entry j a * o.observed.get j := by
  rw [get_linear]
  rfl

theorem toMatrix_symmetrized_gram :
    o.gram.symmetrized.toMatrix = o.design.toMatrixᵀ * o.design.toMatrix := by
  have hsymmetric (a b : Fin p) : o.gram.entry b a = o.gram.entry a b := by
    rw [entry_gram, entry_gram]
    exact Finset.sum_congr rfl fun j _ => mul_comm ..
  rw [← toMatrix_gram]
  ext a b
  rw [Mat.toMatrix_apply, Mat.symmetrized, Mat.entry_ofFn, hsymmetric a b, Scalar.half_real,
    Mat.toMatrix_apply]
  ring

theorem residualSum_eq_sum (x : Vector ℝ p) : o.residualSum x =
    ∑ j, (o.observed.get j - ∑ i, o.design.entry j i * x.get i) ^ 2 := by
  rw [residualSum, Vec.dot_eq, Vec.get_sub, Mat.get_mulVec]
  exact Finset.sum_congr rfl fun j _ => (sq _).symm

/-- The sum of the squared residuals is twice the objective, up to a number that the coefficients
do not enter. -/
theorem residualSum_eq_objective (system : ConstraintSet ℝ p) (x : Vector ℝ p) :
    o.residualSum x =
      2 * (o.problem system).objective x + ∑ j, o.observed.get j ^ 2 := by
  set A := o.design.toMatrix
  have hcross : o.observed.get ⬝ᵥ A *ᵥ x.get = (Aᵀ *ᵥ o.observed.get) ⬝ᵥ x.get := by
    rw [Matrix.dotProduct_mulVec, ← Matrix.mulVec_transpose]
  have hsquare : A *ᵥ x.get ⬝ᵥ A *ᵥ x.get = x.get ⬝ᵥ (Aᵀ * A) *ᵥ x.get := by
    rw [Matrix.dotProduct_mulVec, ← Matrix.mulVec_transpose, Matrix.mulVec_mulVec,
      dotProduct_comm]
  have hobjective : (o.problem system).objective x =
      1 / 2 * (x.get ⬝ᵥ (Aᵀ * A) *ᵥ x.get) - (Aᵀ *ᵥ o.observed.get) ⬝ᵥ x.get := by
    rw [Problem.objective_eq]
    show 1 / 2 * (x.get ⬝ᵥ o.gram.symmetrized.toMatrix *ᵥ x.get) + o.linear.get ⬝ᵥ x.get = _
    rw [toMatrix_symmetrized_gram, get_linear, neg_dotProduct, ← sub_eq_add_neg]
  calc o.residualSum x
      = (o.observed.get - A *ᵥ x.get) ⬝ᵥ (o.observed.get - A *ᵥ x.get) := by
        rw [residualSum, Vec.dot_eq, Vec.get_sub, Mat.get_mulVec]
    _ = o.observed.get ⬝ᵥ o.observed.get - 2 * (o.observed.get ⬝ᵥ A *ᵥ x.get) +
          A *ᵥ x.get ⬝ᵥ A *ᵥ x.get := by
        rw [sub_dotProduct, dotProduct_sub, dotProduct_sub, dotProduct_comm (A *ᵥ x.get)]
        ring
    _ = 2 * (o.problem system).objective x + o.observed.get ⬝ᵥ o.observed.get := by
        rw [hcross, hsquare, hobjective]
        ring
    _ = _ := by
        rw [dotProduct]
        simp only [sq]

/-- A row that is scaled by the root of a weight gives that multiple. -/
theorem row_weighted (weights : Vector ℝ N) (x : Fin p → ℝ) (j : Fin N) :
    ∑ i, (o.weighted weights).design.entry j i * x i =
      Real.sqrt (weights.get j) * ∑ i, o.design.entry j i * x i := by
  rw [Finset.mul_sum]
  refine Finset.sum_congr rfl fun i _ => ?_
  rw [weighted, Mat.entry_ofFn, Scalar.sqrt_real]
  ring

/-- It counts with the weight. -/
theorem residualSum_weighted {weights : Vector ℝ N} (hweights : ∀ j, 0 ≤ weights.get j)
    (x : Vector ℝ p) : (o.weighted weights).residualSum x =
      ∑ j, weights.get j * (o.observed.get j - ∑ i, o.design.entry j i * x.get i) ^ 2 := by
  rw [residualSum_eq_sum]
  refine Finset.sum_congr rfl fun j _ => ?_
  have hobserved : (o.weighted weights).observed.get j =
      Real.sqrt (weights.get j) * o.observed.get j := by
    rw [weighted, Vec.get_ofFn, Scalar.sqrt_real, mul_comm]
  rw [row_weighted, hobserved, ← mul_sub, mul_pow, Real.sq_sqrt (hweights j)]

theorem sum_sq_weighted {weights : Vector ℝ N} (hweights : ∀ j, 0 ≤ weights.get j) :
    ∑ j, (o.weighted weights).observed.get j ^ 2 =
      ∑ j, weights.get j * o.observed.get j ^ 2 := by
  refine Finset.sum_congr rfl fun j _ => ?_
  rw [weighted, Vec.get_ofFn, Scalar.sqrt_real, mul_pow, Real.sq_sqrt (hweights j), mul_comm]

/-- The root of a weight, as a factor of both sides of a product. -/
theorem mul_sqrt_mul_mul_sqrt {w : ℝ} (hw : 0 ≤ w) (x y : ℝ) :
    x * Real.sqrt w * (y * Real.sqrt w) = w * (x * y) := by
  calc x * Real.sqrt w * (y * Real.sqrt w) = Real.sqrt w ^ 2 * (x * y) := by ring
    _ = w * (x * y) := by rw [Real.sq_sqrt hw]

theorem gram_weighted {weights : Vector ℝ N} (hweights : ∀ j, 0 ≤ weights.get j) (a b : Fin p) :
    (o.weighted weights).gram.entry a b =
      ∑ j, weights.get j * (o.design.entry j a * o.design.entry j b) := by
  rw [entry_gram]
  refine Finset.sum_congr rfl fun j _ => ?_
  rw [weighted, Mat.entry_ofFn, Mat.entry_ofFn, Scalar.sqrt_real,
    mul_sqrt_mul_mul_sqrt (hweights j)]

theorem linear_weighted {weights : Vector ℝ N} (hweights : ∀ j, 0 ≤ weights.get j) (a : Fin p) :
    (o.weighted weights).linear.get a =
      -∑ j, weights.get j * (o.design.entry j a * o.observed.get j) := by
  rw [get_linear_eq_sum]
  refine congrArg Neg.neg (Finset.sum_congr rfl fun j _ => ?_)
  rw [weighted, Mat.entry_ofFn, Vec.get_ofFn, Scalar.sqrt_real,
    mul_sqrt_mul_mul_sqrt (hweights j)]

end Exact

/-! ## Repeated rows -/

/-- Every position as many times as it counts, in their order. -/
def positions (counts : Vector Nat N) : List (Fin N) :=
  (List.finRange N).flatMap fun j => List.replicate (counts.get j) j

/-- The observations with every row as many times as it counts. -/
def repeated {α : Type} (o : Observations α N p) (counts : Vector Nat N) :
    Observations α (positions counts).length p where
  design := Mat.ofFn fun i a => o.design.entry ((positions counts).get i) a
  observed := Vector.ofFn fun i => o.observed.get ((positions counts).get i)

/-- A sum over repeated positions counts each term as often as its position is repeated. -/
theorem sum_positions {M : Type} [AddCommMonoid M] (counts : Vector Nat N) (f : Fin N → M) :
    ∑ i, f ((positions counts).get i) = ∑ j, counts.get j • f j := by
  have hlist (l : List (Fin N)) :
      ((l.flatMap fun j => List.replicate (counts.get j) j).map f).sum =
        (l.map fun j => counts.get j • f j).sum := by
    induction l with
    | nil => rfl
    | cons j l ih =>
      rw [List.flatMap_cons, List.map_append, List.sum_append, ih, List.map_replicate,
        List.sum_replicate, List.map_cons, List.sum_cons]
  calc ∑ i, f ((positions counts).get i) = ((positions counts).map f).sum :=
        Fin.sum_univ_fun_getElem (positions counts) f
    _ = ∑ j, counts.get j • f j := by rw [positions, hlist, Fin.sum_univ_def]

theorem le_length_positions {counts : Vector Nat N} (hcounts : ∀ j, 0 < counts.get j) :
    N ≤ (positions counts).length := by
  calc N = ∑ j : Fin N, 1 := by simp
    _ ≤ ∑ j, counts.get j := Finset.sum_le_sum fun j _ => hcounts j
    _ = (positions counts).length := by
      have hsum := sum_positions counts fun _ => 1
      simpa using hsum.symm

/-- A sum over repeated rows is the sum over the rows with their counts as weights. -/
theorem sum_repeated (counts : Vector Nat N) (f : Fin N → ℝ) :
    ∑ i, f ((positions counts).get i) =
      ∑ j, (counts.map Nat.cast : Vector ℝ N).get j * f j := by
  rw [sum_positions]
  exact Finset.sum_congr rfl fun j _ => by rw [nsmul_eq_mul, Vector.get_map]

theorem counts_nonneg (counts : Vector Nat N) (j : Fin N) :
    0 ≤ (counts.map Nat.cast : Vector ℝ N).get j := by
  rw [Vector.get_map]
  exact Nat.cast_nonneg _

/-- Repeating the rows changes neither term of the program from what it is with the counts as
weights. -/
theorem gram_repeated (o : Observations ℝ N p) (counts : Vector Nat N) :
    (o.repeated counts).gram = (o.weighted (counts.map Nat.cast)).gram := by
  refine Mat.ext_entry fun a b => ?_
  rw [gram_weighted o (counts_nonneg counts), entry_gram, ← sum_repeated]
  refine Finset.sum_congr rfl fun i _ => ?_
  rw [repeated, Mat.entry_ofFn, Mat.entry_ofFn]

theorem linear_repeated (o : Observations ℝ N p) (counts : Vector Nat N) :
    (o.repeated counts).linear = (o.weighted (counts.map Nat.cast)).linear := by
  refine Vec.ext_get fun a => ?_
  rw [linear_weighted o (counts_nonneg counts), get_linear_eq_sum, ← sum_repeated]
  refine congrArg Neg.neg (Finset.sum_congr rfl fun i _ => ?_)
  rw [repeated, Mat.entry_ofFn, Vec.get_ofFn]

end Observations

/-! ## Real numbers among the extended ones -/

section Lift

open Extended

variable {m n : Nat}

theorem Extended.half_real : (Scalar.half : Extended) = real Scalar.half :=
  real_div 1 (by norm_num)

namespace Vec

theorem neg_lift (v : Vector ℝ n) : Vec.neg (v.map real) = (Vec.neg v).map real :=
  Vec.ext_get fun i => by simp only [Vec.neg, Vector.get_map, real_neg]

theorem scale_lift (s : ℝ) (v : Vector ℝ n) :
    Vec.scale (real s) (v.map real) = (Vec.scale s v).map real :=
  Vec.ext_get fun i => by simp only [Vec.scale, Vector.get_map, real_mul]

theorem sub_lift (u v : Vector ℝ n) :
    Vec.sub (u.map real) (v.map real) = (Vec.sub u v).map real :=
  Vec.ext_get fun i => by simp only [Vec.sub, Vec.get_ofFn, Vector.get_map, real_sub]

theorem isReal_lift (v : Vector ℝ n) : Vec.IsReal (v.map real) := fun i =>
  ⟨v.get i, Vector.get_map ..⟩

end Vec

namespace Mat

/-- The matrix with its numbers as extended ones. -/
def lift (A : Mat ℝ m n) : Mat Extended m n := ofFn fun i j => real (A.entry i j)

theorem row_lift (A : Mat ℝ m n) (i : Fin m) : A.lift.row i = (A.row i).map real :=
  Vec.ext_get fun j => (entry_ofFn _ i j).trans (Vector.get_map ..).symm

theorem transpose_lift (A : Mat ℝ m n) : A.lift.transpose = A.transpose.lift :=
  ext_entry fun i j => by simp only [transpose, lift, entry_ofFn]

theorem mulVec_lift (A : Mat ℝ m n) (x : Vector ℝ n) :
    A.lift.mulVec (x.map real) = (A.mulVec x).map real :=
  Vec.ext_get fun i => by
    rw [mulVec, Vec.get_ofFn, row_lift, Workspace.dot_lift, Vector.get_map, mulVec, Vec.get_ofFn]

theorem symmetrized_lift (A : Mat ℝ n n) : A.lift.symmetrized = A.symmetrized.lift :=
  ext_entry fun i j => by
    simp only [symmetrized, lift, entry_ofFn, half_real, real_add, real_mul]

end Mat

namespace Observations

/-- The observations with their numbers as extended ones. -/
def lift (o : Observations ℝ N p) : Observations Extended N p :=
  ⟨o.design.lift, o.observed.map real⟩

variable (o : Observations ℝ N p)

theorem gram_lift : o.lift.gram = o.gram.lift :=
  Mat.ext_entry fun i j => by
    simp only [gram, lift, Mat.entry_ofFn]
    rw [Mat.transpose_lift, Mat.row_lift, Mat.row_lift, Workspace.dot_lift, Mat.lift,
      Mat.entry_ofFn, Mat.entry_ofFn]

theorem linear_lift : o.lift.linear = o.linear.map real := by
  rw [linear, lift, Mat.transpose_lift, Mat.mulVec_lift, Vec.neg_lift, linear]

theorem residualSum_lift (x : Vector ℝ p) :
    o.lift.residualSum (x.map real) = real (o.residualSum x) := by
  simp only [residualSum, lift]
  rw [Mat.mulVec_lift, Vec.sub_lift, Workspace.dot_lift]

theorem weighted_lift {weights : Vector ℝ N} (hweights : ∀ j, 0 ≤ weights.get j) :
    o.lift.weighted (weights.map real) = (o.weighted weights).lift := by
  have hroot (j : Fin N) : Scalar.sqrt ((weights.map real).get j) =
      real (Scalar.sqrt (weights.get j)) := by
    rw [Vector.get_map]
    exact sqrt_real (hweights j)
  simp only [weighted, hroot]
  congr 1
  · exact Mat.ext_entry fun i j => by
      simp only [lift, Mat.lift, Mat.entry_ofFn, real_mul]
  · exact Vec.ext_get fun j => by
      simp only [lift, Vec.get_ofFn, Vector.get_map, real_mul]

/-- The objective of a fit is real at a real point, and the constraints have no part in it. -/
theorem objective_lift (system : ConstraintSet Extended p) (x : Vector ℝ p) :
    (o.lift.problem system).objective (x.map real) =
      real ((o.problem .empty).objective x) := by
  show Vec.dot (Vec.scale Scalar.half (x.map real)) (o.lift.gram.symmetrized.mulVec (x.map real)) +
    Vec.dot o.lift.linear (x.map real) = _
  rw [gram_lift, Mat.symmetrized_lift, Mat.mulVec_lift, linear_lift, half_real, Vec.scale_lift,
    Workspace.dot_lift, Workspace.dot_lift, real_add]
  rfl

end Observations

end Lift

/-! ## Programs of fits -/

namespace Problem

variable {n e m : Nat}

/-- Whether a point meets the inequalities of a problem and attains its equalities. -/
structure Allows (P : Problem Extended n e m) (x : Vector ℝ n) : Prop where
  inequality : ∀ i, (P.inequalities.get i).Met x
  equality : ∀ i, (P.equalities.get i).Attained x

end Problem

theorem forall_get_toArray {β : Type} (Q : β → Prop) (l : List β) :
    (∀ i, Q ((⟨l.toArray, List.size_toArray⟩ : Vector β l.length).get i)) ↔ ∀ x ∈ l, Q x := by
  simp only [Vec.get_eq_getElem, List.forall_mem_iff_getElem]
  exact ⟨fun hall i hi => hall ⟨i, hi⟩, fun hall i => hall i i.isLt⟩

namespace Observations

variable (o : Observations ℝ N p) {system : ConstraintSet Extended p}

theorem allows_problem_iff (o : Observations Extended N p) (x : Vector ℝ p) :
    (o.problem system).Allows x ↔ system.Feasible x := by
  have hinequalities := forall_get_toArray (Constraint.Met · x) system.inequalities
  have hequalities := forall_get_toArray (Constraint.Attained · x) system.equalities
  exact ⟨fun ⟨hmet, hattained⟩ => ⟨hinequalities.mp hmet, hequalities.mp hattained⟩,
    fun ⟨hmet, hattained⟩ => ⟨hinequalities.mpr hmet, hequalities.mpr hattained⟩⟩

theorem plain_problem (hsystem : system.IsReal) : (o.lift.problem system).Plain where
  linear := by
    show Vec.IsReal o.lift.linear
    rw [linear_lift]
    exact Vec.isReal_lift _
  equality := (forall_get_toArray (fun c => Vec.IsReal c.normal ∧ c.bound.IsReal) _).mpr
    fun c hc => ⟨(hsystem.2 c hc).normal, (hsystem.2 c hc).bound⟩
  inequality := (forall_get_toArray (fun c => Vec.IsReal c.normal) _).mpr
    fun c hc => (hsystem.1 c hc).normal

/-- Whoever has the same inner products has the same program. -/
theorem problem_congr {α : Type} [Scalar α] {N N' : Nat} {o : Observations α N p}
    {o' : Observations α N' p} (hgram : o.gram = o'.gram) (hlinear : o.linear = o'.linear)
    (system : ConstraintSet α p) : o.problem system = o'.problem system := by
  rw [problem, problem, hgram, hlinear]

/-- A fit is answered at a real point, with the residual sum there. -/
theorem exists_point_of_fitOver (hsystem : system.IsReal) {limit : Int}
    {s : Solution Extended p system.equalities.length system.inequalities.length}
    (h : (o.lift.fitOver system limit).outcome = .ok s) :
    ∃ x : Vector ℝ p, s.point = x.map Extended.real ∧ s.value = .real (o.residualSum x) := by
  obtain ⟨t, ht, hanswer⟩ := Program.ok_of_bind h
  choose x hx using Program.isReal_point_of_solve (o.plain_problem hsystem) ht
  have hpoint : t.point = (Vector.ofFn x).map Extended.real := Vec.ext_get fun i => by
    rw [hx, Vector.get_map, Vec.get_ofFn]
  unfold answer at hanswer
  split at hanswer
  · cases hanswer
    exact ⟨Vector.ofFn x, hpoint, by rw [hpoint, residualSum_lift]⟩
  · cases hanswer

end Observations

/-! ## What a fit accepts -/

namespace Sample

variable {α : Type} [Scalar α] {o : Observations α N p} {design : Tensor α} {observed : Nested α}

/-- Observations without weights are accepted, unless there are too few. -/
theorem ofInput_of_lists (hshape : design.shape = [N, p]) (hdesign : design.matrix N p = o.design)
    (hobserved : observed.Lists o.observed) (hsize : p ≤ N) :
    ofInput design observed none = .ok ⟨o⟩ := by
  obtain ⟨y, hy, hflat⟩ := hobserved
  simp only [ofInput, hy, bind, Except.bind, pure, Except.pure, hshape, hflat,
    if_neg (not_lt.mpr hsize), hdesign]

/-- Observations with positive weights are accepted, unless there are too few. -/
theorem ofInput_of_weights (hshape : design.shape = [N, p])
    (hdesign : design.matrix N p = o.design) (hobserved : observed.Lists o.observed)
    (hsize : p ≤ N) {input : Nested α} {weights : Vector α N} (hweights : input.Lists weights)
    (hpositive : ∀ j, Scalar.le (weights.get j) 0 = false) :
    ofInput design observed (some input) = .ok ⟨o.weighted weights⟩ := by
  obtain ⟨y, hy, hflat⟩ := hobserved
  obtain ⟨t, ht, hwflat⟩ := hweights
  have hany : ¬ (weights.any fun x => Scalar.le x 0) = true := by
    rw [Vector.any_eq_true]
    rintro ⟨j, hj, hle⟩
    exact Bool.false_ne_true ((hpositive ⟨j, hj⟩).symm.trans hle)
  simp only [ofInput, hy, bind, Except.bind, pure, Except.pure, hshape, hflat,
    if_neg (not_lt.mpr hsize), ht, hwflat, if_neg hany, hdesign]

end Sample

/-! ## Fits -/

/-- Whether an array of any shape holds the entries of a vector. -/
def Nested.Holds {n : Nat} (input : Nested Extended) (v : Vector ℝ n) : Prop :=
  ∃ t, input.tensor = .ok t ∧ t.flat? n = some (v.map .real)

theorem Nested.holds_of_entries {n : Nat} {input : Nested Extended} {v : Vector ℝ n}
    {t : Tensor Extended} (ht : input.tensor = .ok t) (h : t.entries = v.toList.map .real) :
    input.Holds v :=
  ⟨t, ht, Tensor.flat?_of_entries (h.trans Vector.toList_map.symm)⟩

namespace Observations

/-- Whether a design matrix and an array hold the observations. -/
structure Given (o : Observations ℝ N p) (design : Tensor Extended) (observed : Nested Extended) :
    Prop where
  shape : design.shape = [N, p]
  design : design.matrix N p = o.design.lift
  observed : observed.Holds o.observed

/-- The weight of a row; one where no weights are given. -/
def weight (weights : Option (Vector ℝ N)) (j : Fin N) : ℝ :=
  match weights with
  | none => 1
  | some w => w.get j

/-- The sum of the squared residuals, each times the weight of its row. -/
noncomputable def squaredError (o : Observations ℝ N p) (weights : Option (Vector ℝ N))
    (x : Vector ℝ p) : ℝ :=
  ∑ j, weight weights j * (o.observed.get j - ∑ i, o.design.entry j i * x.get i) ^ 2

/-- The observations with the weights applied, if there are any. -/
noncomputable def scaled (o : Observations ℝ N p) : Option (Vector ℝ N) → Observations ℝ N p
  | none => o
  | some w => o.weighted w

variable {o : Observations ℝ N p} {weights : Option (Vector ℝ N)}

theorem residualSum_scaled (hpos : ∀ w ∈ weights, ∀ j, 0 < w.get j) (x : Vector ℝ p) :
    (o.scaled weights).residualSum x = o.squaredError weights x := by
  cases weights with
  | none =>
    rw [scaled, residualSum_eq_sum]
    exact Finset.sum_congr rfl fun j _ => (one_mul _).symm
  | some w => exact o.residualSum_weighted (fun j => (hpos w rfl j).le) x

theorem sum_sq_scaled (hpos : ∀ w ∈ weights, ∀ j, 0 < w.get j) :
    ∑ j, (o.scaled weights).observed.get j ^ 2 = ∑ j, weight weights j * o.observed.get j ^ 2 := by
  cases weights with
  | none => exact Finset.sum_congr rfl fun j _ => (one_mul _).symm
  | some w => exact o.sum_sq_weighted fun j => (hpos w rfl j).le

variable {design : Tensor Extended} {observed : Nested Extended}

/-- Observations are accepted with positive weights, or none, unless there are too few. -/
theorem ofInput_of_given (hgiven : o.Given design observed) (hsize : p ≤ N)
    {input : Option (Nested Extended)}
    (hweights : Option.Rel (fun w input => Nested.Holds input w) weights input)
    (hpos : ∀ w ∈ weights, ∀ j, 0 < w.get j) :
    Sample.ofInput design observed input = .ok ⟨(o.scaled weights).lift⟩ := by
  cases hweights with
  | none => exact Sample.ofInput_of_lists hgiven.shape hgiven.design hgiven.observed hsize
  | @some w input hw =>
    have hpositive (j : Fin N) : Scalar.le ((w.map Extended.real).get j) 0 = false := by
      rw [Vector.get_map]
      exact decide_eq_false (not_le.mpr (hpos w rfl j))
    rw [Sample.ofInput_of_weights (o := o.lift) hgiven.shape hgiven.design hgiven.observed hsize hw
      hpositive, scaled, ← weighted_lift o fun j => (hpos w rfl j).le]

end Observations

/-! ## Regions of one dimension -/

namespace ConstraintSet

variable {regions : List (Region Extended)}

theorem fits_of_dimension (hdimension : ∀ r ∈ regions, r.dimension = p) :
    (regions.map RegionInput.region).findSome? (RegionInput.flaw? p) = none := by
  rw [List.findSome?_eq_none_iff]
  intro item hitem
  obtain ⟨r, hr, rfl⟩ := List.mem_map.mp hitem
  exact RegionInput.flaw?_of_dimension (hdimension r hr)

theorem feasible_joined_regions (hdimension : ∀ r ∈ regions, r.dimension = p) (x : Vector ℝ p) :
    (joined p (regions.map .region)).Feasible x ↔ ∀ r ∈ regions, r.Holds x := by
  rw [feasible_joined_iff (fits_of_dimension hdimension)]
  refine forall_congr' fun r => imp_congr_left ?_
  exact List.mem_map_of_injective fun _ _ => RegionInput.region.inj

theorem isReal_joined_regions (hreal : ∀ r ∈ regions, r.HasRealData) :
    (joined p (regions.map .region)).IsReal := by
  refine isReal_joined fun r hr => ?_
  obtain ⟨r', hr', heq⟩ := List.mem_map.mp hr
  cases heq
  exact hreal r hr'

end ConstraintSet

theorem ConstraintSet.collect_regions {regions : List (Region Extended)}
    (hdimension : ∀ r ∈ regions, r.dimension = p) :
    collect p (regions.map .region) = .ok (joined p (regions.map .region)) := by
  rw [collect_eq, fits_of_dimension hdimension]

/-- Regions of the right dimension are fitted over the system that joins them. -/
theorem Sample.fit_eq (fitted : Observations Extended N p) (hcoefficients : 0 < p)
    {regions : List (Region Extended)} (hdimension : ∀ r ∈ regions, r.dimension = p)
    (limit : Int) :
    let report := fitted.fitOver (.joined p (regions.map .region)) limit
    Sample.fit ⟨fitted⟩ (regions.map .region) limit = .ok ⟨report.events, report.outcome⟩ := by
  simp only [Sample.fit, ConstraintSet.collect_regions hdimension, bind, Except.bind,
    if_neg hcoefficients.ne']
  rfl

open Observations in
/-- A fit of as many observations as coefficients or more, with positive weights or none, is
accepted and solves a quadratic program. At all coefficients the weighted sum of the squared
residuals is twice the objective of the program, plus the weighted sum of the squared
observations. The program allows the points of all regions, so it has the least value where the
fit has the least error. What is returned has the weighted sum of its coefficients as its value.
With whole numbers as weights the program is that of the repeated rows. -/
theorem Sample.fit_reduces {o : Observations ℝ N p} {weights : Option (Vector ℝ N)}
    {design : Tensor Extended} {observed : Nested Extended} {input : Option (Nested Extended)}
    (hgiven : o.Given design observed)
    (hweights : Option.Rel (fun w input => Nested.Holds input w) weights input)
    (hpos : ∀ w ∈ weights, ∀ j, 0 < w.get j) (hcoefficients : 0 < p) (hsize : p ≤ N)
    {regions : List (Region Extended)} (hdimension : ∀ r ∈ regions, r.dimension = p)
    (hreal : ∀ r ∈ regions, r.HasRealData) (limit : Int) :
    ∃ (fitted : Observations Extended N p) (system : ConstraintSet Extended p)
      (objective : Vector ℝ p → ℝ),
      Sample.ofInput design observed input = .ok ⟨fitted⟩ ∧
      ConstraintSet.collect p (regions.map .region) = .ok system ∧
      Sample.fit ⟨fitted⟩ (regions.map .region) limit =
        .ok ⟨(fitted.fitOver system limit).events, (fitted.fitOver system limit).outcome⟩ ∧
      (∀ x, (fitted.problem system).objective (x.map .real) = .real (objective x) ∧
        o.squaredError weights x =
          2 * objective x + ∑ j, weight weights j * o.observed.get j ^ 2) ∧
      (∀ x, (fitted.problem system).Allows x ↔ ∀ r ∈ regions, r.Holds x) ∧
      (∀ x, ((fitted.problem system).Allows x ∧
          ∀ y, (fitted.problem system).Allows y → objective x ≤ objective y) ↔
        (∀ r ∈ regions, r.Holds x) ∧
          ∀ y, (∀ r ∈ regions, r.Holds y) → o.squaredError weights x ≤ o.squaredError weights y) ∧
      (∀ s, (fitted.fitOver system limit).outcome = .ok s →
        ∃ x : Vector ℝ p, s.point = x.map .real ∧ s.value = .real (o.squaredError weights x) ∧
          s.value = .real (2 * objective x + ∑ j, weight weights j * o.observed.get j ^ 2)) ∧
      ∀ counts : Vector Nat N, weights = some (counts.map Nat.cast) →
        ∀ design' observed', (o.repeated counts).Given design' observed' →
          ∃ plain : Observations Extended (positions counts).length p,
            Sample.ofInput design' observed' none = .ok ⟨plain⟩ ∧
            plain.problem system = fitted.problem system := by
  let system : ConstraintSet Extended p := .joined p (regions.map .region)
  have hvalue (x : Vector ℝ p) : o.squaredError weights x =
      2 * ((o.scaled weights).problem .empty).objective x +
        ∑ j, weight weights j * o.observed.get j ^ 2 := by
    rw [← residualSum_scaled hpos, residualSum_eq_objective, sum_sq_scaled hpos]
  have hallows (x : Vector ℝ p) : ((o.scaled weights).lift.problem system).Allows x ↔
      ∀ r ∈ regions, r.Holds x :=
    (allows_problem_iff _ x).trans (ConstraintSet.feasible_joined_regions hdimension x)
  refine ⟨(o.scaled weights).lift, system, ((o.scaled weights).problem .empty).objective,
    ofInput_of_given hgiven hsize hweights hpos, ConstraintSet.collect_regions hdimension,
    Sample.fit_eq _ hcoefficients hdimension limit,
    fun x => ⟨objective_lift _ system x, hvalue x⟩, hallows, fun x => ?_, fun s hs => ?_, ?_⟩
  · -- the squared error and the objective order the points alike
    have hle (y : Vector ℝ p) : ((o.scaled weights).problem .empty).objective x ≤
        ((o.scaled weights).problem .empty).objective y ↔
          o.squaredError weights x ≤ o.squaredError weights y := by
      rw [hvalue, hvalue, add_le_add_iff_right, mul_le_mul_iff_right₀ two_pos]
    simp only [hallows, hle]
  · obtain ⟨x, hpoint, hs⟩ :=
      exists_point_of_fitOver _ (ConstraintSet.isReal_joined_regions hreal) hs
    rw [residualSum_scaled hpos] at hs
    exact ⟨x, hpoint, hs, by rw [hs, hvalue]⟩
  · rintro counts rfl design' observed' hgiven'
    have hcounts (j : Fin N) : 0 < counts.get j := by
      have hj := hpos _ rfl j
      rw [Vector.get_map] at hj
      exact Nat.cast_pos.mp hj
    have hunweighted : ∀ w ∈ (none : Option (Vector ℝ (positions counts).length)),
        ∀ j, 0 < w.get j := fun w hw => nomatch hw
    refine ⟨_, ofInput_of_given hgiven' (hsize.trans (le_length_positions hcounts)) .none
      hunweighted, problem_congr ?_ ?_ system⟩
    · rw [gram_lift, gram_lift, scaled, scaled, gram_repeated]
    · rw [linear_lift, linear_lift, scaled, scaled, linear_repeated]

/-! ### A constant fitted to two numbers -/

/-- A system of one equation with a positive factor is solved by a division. -/
theorem Cholesky.exists_solve_single {A : Mat Extended 1 1} {a : ℝ} (hentry : A.entry 0 0 = .real a)
    (ha : 0 < a) : ∃ L, Dense.factor A = .ok L ∧
      ∀ (v : Vector Extended 1) (b : ℝ), v.get 0 = .real b →
        (solve L v).get 0 = .real (b / a) := by
  have hroot : Scalar.sqrt (A.entry 0 0) = .real (Real.sqrt a) := by
    rw [hentry, Extended.sqrt_real ha.le]
  have hpivot : ¬ Scalar.le (A.entry 0 0) 0 = true := by
    rw [hentry, Extended.real_zero, Extended.le_real, decide_eq_true_eq]
    exact not_le.mpr ha
  have hreal : A.IsReal := fun i j => by
    obtain rfl : i = 0 := Subsingleton.elim _ _
    obtain rfl : j = 0 := Subsingleton.elim _ _
    exact ⟨a, hentry⟩
  obtain ⟨L, hL, hcorner⟩ : ∃ L, factor? A = some L ∧ L.entry 0 0 = .real (Real.sqrt a) :=
    ⟨_, (if_neg hpivot).trans rfl, hroot⟩
  refine ⟨L, factor_eq_ok_of_isReal hreal hL, fun v b hv => ?_⟩
  have hdivide (x : ℝ) : Triangular.byReciprocal (.real x) (L.entry 0 0) =
      .real (x / Real.sqrt a) := by
    rw [hcorner, Triangular.byReciprocal, Extended.real_one,
      Extended.real_div 1 (Real.sqrt_pos.mpr ha).ne', Extended.real_mul, mul_one_div]
  calc (solve L v).get 0
      = Triangular.byReciprocal (Triangular.byReciprocal (v.get 0) (L.entry 0 0))
          (L.entry 0 0) := rfl
    _ = .real (b / Real.sqrt a / Real.sqrt a) := by rw [hv, hdivide, hdivide]
    _ = .real (b / a) := by rw [div_div, Real.mul_self_sqrt ha.le]

namespace Observations

/-- The observations zero and three of one number. -/
def constant : Observations ℝ 2 1 := ⟨Mat.ofFn fun _ _ => 1, #v[0, 3]⟩

theorem given_constant : constant.Given ⟨[2, 1], [.real 1, .real 1], rfl⟩
    (.list [.number (.real 0), .number (.real 3)]) where
  shape := rfl
  design := rfl
  observed := Nested.holds_of_entries rfl rfl

theorem given_repeated_constant :
    (constant.repeated #v[1, 2]).Given ⟨[3, 1], [.real 1, .real 1, .real 1], rfl⟩
      (.list [.number (.real 0), .number (.real 3), .number (.real 3)]) where
  shape := rfl
  design := rfl
  observed := Nested.holds_of_entries rfl (by
    rw [repeated, Vector.toList_ofFn]
    rfl)

/-- The weights one and two. -/
noncomputable def constantWeights : Vector ℝ 2 := (#v[1, 2] : Vector Nat 2).map Nat.cast

theorem constantWeights_nonneg (j : Fin 2) : 0 ≤ constantWeights.get j :=
  counts_nonneg #v[1, 2] j

theorem sum_constantWeights (f : Fin 2 → ℝ) : ∑ j, constantWeights.get j * f j = f 0 + 2 * f 1 := by
  rw [Fin.sum_univ_two, constantWeights, Vector.get_map, Vector.get_map]
  show ((1 : Nat) : ℝ) * f 0 + ((2 : Nat) : ℝ) * f 1 = _
  norm_num

/-- The numbers from zero up. -/
noncomputable def upward : Region Extended := .interval #v[.real 0] (some #v[.nan])

theorem exists_fit_constant : ∃ s,
    ((constant.weighted constantWeights).lift.fitOver (.joined 1 [.region upward]) 100).outcome =
      .ok s ∧ s.point.get 0 = .real 2 := by
  set o := constant.weighted constantWeights
  have hquadratic : (o.lift.problem (.joined 1 [.region upward])).quadratic.entry 0 0 =
      .real 3 := by
    show o.lift.gram.symmetrized.entry 0 0 = _
    rw [gram_lift, Mat.symmetrized_lift, Mat.lift, Mat.entry_ofFn, ← Mat.toMatrix_apply,
      toMatrix_symmetrized_gram, ← toMatrix_gram, Mat.toMatrix_apply,
      gram_weighted constant constantWeights_nonneg,
      sum_constantWeights fun j => constant.design.entry j 0 * constant.design.entry j 0]
    norm_num [constant, Mat.entry_ofFn]
  have hlinear : (o.lift.problem (.joined 1 [.region upward])).linear.get 0 = .real (-6) := by
    show o.lift.linear.get 0 = _
    rw [linear_lift, Vector.get_map, linear_weighted constant constantWeights_nonneg,
      sum_constantWeights fun j => constant.design.entry j 0 * constant.observed.get j]
    norm_num [constant, Mat.entry_ofFn]
  obtain ⟨L, hfactor, hsolve⟩ := Cholesky.exists_solve_single hquadratic three_pos
  set P := o.lift.problem (.joined 1 [.region upward])
  have hpoint : (P.unconstrainedPoint L).get 0 = .real 2 := by
    rw [Problem.unconstrainedPoint, Vec.neg, Vector.get_map, hsolve _ _ hlinear,
      Extended.real_neg]
    norm_num
  have hunviolated : ∀ i, Scalar.lt ((P.inequalities.get i).slack (P.unconstrainedPoint L)) 0 =
      false := by
    refine (forall_get_toArray (fun c => Scalar.lt (Constraint.slack c _) 0 = false)
      (ConstraintSet.joined 1 [.region upward]).inequalities).mpr fun c hc => ?_
    obtain rfl : c = ⟨Vec.unit 0, .real 0⟩ := List.mem_singleton.mp hc
    have hslack : Constraint.slack ⟨Vec.unit 0, .real 0⟩ (P.unconstrainedPoint L) =
        .real (0 + 1 * 2) - .real 0 := by
      show 0 + (Vec.unit (0 : Fin 1)).get 0 * (P.unconstrainedPoint L).get 0 - _ = _
      rw [hpoint]
      rfl
    rw [hslack, Extended.real_sub, Extended.real_zero, Extended.lt_real]
    norm_num
  have hprepare : Program.prepare ⟨P⟩ none 100 = .ok L := hfactor
  obtain ⟨answer, hanswer, hsuccess, hanswered⟩ := Program.exists_proper_of_unviolated hprepare
    (Cholesky.regular_of_factor hfactor).hasZeroPivot rfl Nat.one_ne_zero (by decide) hunviolated
  have hproper : answer.status = .proper := of_decide_eq_true hsuccess
  refine ⟨{ answer with value := o.lift.residualSum answer.point }, ?_, ?_⟩
  · show (Program.solve ⟨P⟩ none 100 none).outcome.bind o.lift.answer = _
    rw [hanswer]
    exact if_pos hproper
  · show answer.point.get 0 = _
    rw [hanswered]
    exact hpoint

end Observations

open Observations in
/-- The constant is two, at a residual sum of six, and it is fitted to zero, three and three
without weights. -/
theorem Sample.fit_reduces_constant :
    ∃ (fitted : Observations Extended 2 1) (system : ConstraintSet Extended 1)
      (s : Solution Extended 1 system.equalities.length system.inequalities.length),
      Sample.ofInput ⟨[2, 1], [.real 1, .real 1], rfl⟩
        (.list [.number (.real 0), .number (.real 3)])
        (some (.list [.number (.real 1), .number (.real 2)])) = .ok ⟨fitted⟩ ∧
      (fitted.fitOver system 100).outcome = .ok s ∧ s.point.get 0 = .real 2 ∧ s.value = .real 6 ∧
      ∃ plain : Observations Extended 3 1,
        Sample.ofInput ⟨[3, 1], [.real 1, .real 1, .real 1], rfl⟩
          (.list [.number (.real 0), .number (.real 3), .number (.real 3)]) none = .ok ⟨plain⟩ ∧
        plain.problem system = fitted.problem system := by
  have hholds : Nested.Holds (.list [.number (.real 1), .number (.real 2)]) constantWeights :=
    Nested.holds_of_entries rfl (by
      rw [constantWeights, Vector.toList_map]
      simp [Tensor.number])
  have hpos : ∀ w ∈ some constantWeights, ∀ j, 0 < w.get j := by
    rintro w hw j
    obtain rfl := Option.mem_some_iff.mp hw
    rw [constantWeights, Vector.get_map]
    fin_cases j <;> simp [Vec.get_eq_getElem]
  have hdimension : ∀ r ∈ [upward], r.dimension = 1 := fun r hr => by
    obtain rfl := List.mem_singleton.mp hr
    rfl
  have hreal : ∀ r ∈ [upward], r.HasRealData := fun r hr => by
    obtain rfl := List.mem_singleton.mp hr
    trivial
  obtain ⟨fitted, system, objective, hinput, hcollect, -, -, -, -, hresult, hrepeated⟩ :=
    Sample.fit_reduces given_constant (.some hholds) hpos one_pos one_le_two hdimension hreal 100
  obtain rfl : ConstraintSet.joined 1 [.region upward] = system :=
    Except.ok.inj ((ConstraintSet.collect_regions hdimension).symm.trans hcollect)
  have hfitted := (ofInput_of_given given_constant one_le_two (.some hholds) hpos).symm.trans hinput
  obtain rfl : (constant.weighted constantWeights).lift = fitted := by
    cases hfitted
    rfl
  obtain ⟨s, hs, hpoint⟩ := exists_fit_constant
  refine ⟨_, _, s, hinput, hs, hpoint, ?_, ?_⟩
  · obtain ⟨x, hx, hvalue, -⟩ := hresult s hs
    have hcoefficient : x.get 0 = 2 := by
      rw [hx, Vector.get_map] at hpoint
      exact Extended.real.inj hpoint
    have herror : constant.squaredError (some constantWeights) x = 6 := by
      rw [squaredError]
      refine (sum_constantWeights fun j => (constant.observed.get j -
        ∑ i, constant.design.entry j i * x.get i) ^ 2).trans ?_
      rw [Fin.sum_univ_one, Fin.sum_univ_one, hcoefficient]
      norm_num [constant, Mat.entry_ofFn]
    rw [hvalue, herror]
  · exact hrepeated #v[1, 2] rfl _ _ given_repeated_constant

end ActiveSet

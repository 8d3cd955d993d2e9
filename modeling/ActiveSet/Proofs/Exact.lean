import Mathlib
import ActiveSet.Solver
/-
  Exact arithmetic — the real numbers as scalars

  A solve over `ℝ` is the textbook method: sums do not round, comparisons mean
  what they say, and the length of a pair is the root of the sum of its
  squares. The only trace of double precision left is the threshold `epsilon`,
  which stays the number 2^-52.

  The lemmas here read the operations of the library at `ℝ`: scalar ones as
  Mathlib's, and those on vectors and matrices as finite sums. `Mat.toMatrix`
  is the matrix that Mathlib's algebra works on; a vector `v` is its entry
  function `v.get`.
-/

open Matrix

namespace ActiveSet

noncomputable instance : Scalar ℝ where
  sqrt := Real.sqrt
  hypot a b := Real.sqrt (a * a + b * b)
  abs x := |x|
  lt x y := decide (x < y)
  le x y := decide (x ≤ y)
  isFinite _ := true
  isNaN _ := false
  isBelowTop _ := true

namespace Scalar

@[simp] theorem sqrt_real (x : ℝ) : Scalar.sqrt x = Real.sqrt x := rfl

theorem hypot_real (a b : ℝ) : Scalar.hypot a b = Real.sqrt (a * a + b * b) := rfl

@[simp] theorem abs_real (x : ℝ) : Scalar.abs x = |x| := rfl

@[simp] theorem lt_real (x y : ℝ) : Scalar.lt x y = decide (x < y) := rfl

@[simp] theorem le_real (x y : ℝ) : Scalar.le x y = decide (x ≤ y) := rfl

@[simp] theorem isFinite_real (x : ℝ) : Scalar.isFinite x = true := rfl

@[simp] theorem isNaN_real (x : ℝ) : Scalar.isNaN x = false := rfl

@[simp] theorem isBelowTop_real (x : ℝ) : Scalar.isBelowTop x = true := rfl

@[simp] theorem half_real : (Scalar.half : ℝ) = 1 / 2 := by
  show (1 : ℝ) / (1 + 1) = 1 / 2
  norm_num

theorem epsilon_real : (Scalar.epsilon : ℝ) = 1 / 4503599627370496 := by
  show (1 : ℝ) / ((4503599627370496 : Nat) : ℝ) = _
  norm_num

theorem epsilon_pos : (0 : ℝ) < Scalar.epsilon := by
  rw [epsilon_real]
  norm_num

theorem epsilon_lt_one : (Scalar.epsilon : ℝ) < 1 := by
  rw [epsilon_real]
  norm_num

theorem isZero_real (x : ℝ) : Scalar.isZero x = true ↔ x = 0 := by
  simp only [Scalar.isZero, le_real, Bool.and_eq_true, decide_eq_true_eq]
  exact le_antisymm_iff.symm

@[simp] theorem larger_real (x y : ℝ) : Scalar.larger x y = max x y := by
  rcases lt_or_ge x y with h | h
  · simp [Scalar.larger, h, h.le]
  · simp [Scalar.larger, h, not_lt.mpr h]

@[simp] theorem smaller_real (x y : ℝ) : Scalar.smaller x y = min x y := by
  rcases lt_or_ge y x with h | h
  · simp [Scalar.smaller, h, h.le]
  · simp [Scalar.smaller, h, not_lt.mpr h]

@[simp] theorem maximum_real (x y : ℝ) : Scalar.maximum x y = max x y := by
  simp [Scalar.maximum]

@[simp] theorem minimum_real (x y : ℝ) : Scalar.minimum x y = min x y := by
  simp [Scalar.minimum]

end Scalar

/-! ## Folds as sums -/

theorem foldl_add_eq_sum {n : Nat} (f : Fin n → ℝ) (a : ℝ) :
    Fin.foldl n (fun s i => s + f i) a = a + ∑ i, f i := by
  induction n with
  | zero => simp
  | succ n ih => rw [Fin.foldl_succ_last, ih, Fin.sum_univ_castSucc, add_assoc]

theorem foldr_sub_eq_sum {n : Nat} (f : Fin n → ℝ) (a : ℝ) :
    Fin.foldr n (fun i s => s - f i) a = a - ∑ i, f i := by
  induction n with
  | zero => simp
  | succ n ih => rw [Fin.foldr_succ, ih, Fin.sum_univ_succ]; ring

namespace Vec

variable {n : Nat}

theorem dot_eq (u v : Vector ℝ n) : Vec.dot u v = u.get ⬝ᵥ v.get := by
  rw [Vec.dot, foldl_add_eq_sum, zero_add]
  rfl

@[simp] theorem get_add (u v : Vector ℝ n) : (Vec.add u v).get = u.get + v.get := by
  funext i
  simp [Vec.add]

@[simp] theorem get_sub (u v : Vector ℝ n) : (Vec.sub u v).get = u.get - v.get := by
  funext i
  simp [Vec.sub]

@[simp] theorem get_scale (s : ℝ) (v : Vector ℝ n) : (Vec.scale s v).get = s • v.get := by
  funext i
  simp [Vec.scale, Vector.get_map]

@[simp] theorem get_neg (v : Vector ℝ n) : (Vec.neg v).get = -v.get := by
  funext i
  simp [Vec.neg, Vector.get_map]

@[simp] theorem get_zero (i : Fin n) : (Vec.zero n : Vector ℝ n).get i = 0 := by
  simp [Vec.zero, get_eq_getElem]

theorem ext_get {β : Type} {u v : Vector β n} (h : ∀ i, u.get i = v.get i) : u = v := by
  ext i hi
  exact h ⟨i, hi⟩

theorem toList_eq_ofFn {β : Type} (v : Vector β n) : v.toList = List.ofFn v.get := by
  apply List.ext_getElem
  · simp
  · intro i _ _
    simp [get_eq_getElem]

theorem sum_eq (v : Vector ℝ n) : Vec.sum v = ∑ i, v.get i := by
  rw [Vec.sum, ← Vector.foldl_toList, toList_eq_ofFn, ← List.sum_ofFn, List.sum_eq_foldl]

end Vec

namespace Mat

variable {m n : Nat}

/-- The matrix as Mathlib has it. -/
def toMatrix (A : Mat ℝ m n) : Matrix (Fin m) (Fin n) ℝ := Matrix.of A.entry

@[simp] theorem toMatrix_apply (A : Mat ℝ m n) (i : Fin m) (j : Fin n) :
    A.toMatrix i j = A.entry i j := rfl

theorem get_mulVec (A : Mat ℝ m n) (x : Vector ℝ n) :
    (A.mulVec x).get = A.toMatrix *ᵥ x.get := by
  funext i
  rw [Mat.mulVec, Vec.get_ofFn, Vec.dot_eq]
  rfl

theorem toMatrix_transpose (A : Mat ℝ m n) : A.transpose.toMatrix = A.toMatrixᵀ := by
  ext i j
  simp [Mat.transpose]

theorem trace_eq (A : Mat ℝ n n) : A.trace = A.toMatrix.trace := by
  rw [Mat.trace, foldl_add_eq_sum, zero_add]
  rfl

end Mat

end ActiveSet

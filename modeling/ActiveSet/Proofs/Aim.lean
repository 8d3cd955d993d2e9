import ActiveSet.Proofs.Cholesky
import ActiveSet.Proofs.Plan
/-
  Directions as they are computed, in exact arithmetic

  What `aim` and `dualDirection` leave in a workspace, read in Mathlib's terms:
  the image of a normal `v` is `d = Jᵀ v`, the point moves along `z = J t`,
  where `t` keeps the entries of `d` from the number of active constraints on
  (`tailFrom`), and the dual direction solves the triangular system for the
  entries before. The point can move exactly if `z · z` is above the threshold.
-/

open Matrix

namespace ActiveSet

variable {n slots : Nat}

/-- The entries from position `q` on, with zeros before. -/
def tailFrom (q : Nat) (d : Fin n → ℝ) : Fin n → ℝ := fun i => if q ≤ i.val then d i else 0

theorem tailFrom_of_lt {q : Nat} {i : Fin n} (h : i.val < q) (d : Fin n → ℝ) :
    tailFrom q d i = 0 := if_neg (Nat.not_le.mpr h)

theorem tailFrom_of_le {q : Nat} {i : Fin n} (h : q ≤ i.val) (d : Fin n → ℝ) :
    tailFrom q d i = d i := if_pos h

theorem dotProduct_tailFrom (q : Nat) (d : Fin n → ℝ) :
    d ⬝ᵥ tailFrom q d = tailFrom q d ⬝ᵥ tailFrom q d := by
  apply Finset.sum_congr rfl
  intro i _
  rcases Nat.lt_or_ge i.val q with h | h
  · rw [tailFrom_of_lt h, mul_zero, mul_zero]
  · rw [tailFrom_of_le h]

theorem dotProduct_mulVec_eq (J : Matrix (Fin n) (Fin n) ℝ) (u w : Fin n → ℝ) :
    u ⬝ᵥ (J *ᵥ w) = (Jᵀ *ᵥ u) ⬝ᵥ w := by
  rw [Matrix.dotProduct_mulVec, Matrix.mulVec_transpose]

namespace Workspace

/-- The image that is computed for a normal. -/
theorem get_image_aim (ws : Workspace ℝ n slots) (v : Vector ℝ n) :
    (ws.aim v).image.get = ws.basis.toMatrixᵀ *ᵥ v.get := by
  show (ws.basis.transpose.mulVec v).get = _
  rw [Mat.get_mulVec, Mat.toMatrix_transpose]

theorem get_primal_aim (ws : Workspace ℝ n slots) (v : Vector ℝ n) :
    (ws.aim v).primal.get =
      ws.basis.toMatrix *ᵥ tailFrom ws.count (ws.basis.toMatrixᵀ *ᵥ v.get) := by
  funext i
  rw [← get_image_aim]
  show (combineFrom ws.basis (ws.aim v).image ws.count).get i = _
  have hterm : (fun (s : ℝ) (k : Fin n) =>
      if ws.count ≤ k.val then s + ws.basis.entry i k * (ws.aim v).image.get k else s) =
      fun s k => s + ws.basis.entry i k * tailFrom ws.count (ws.aim v).image.get k := by
    funext s k
    by_cases hk : ws.count ≤ k.val
    · rw [if_pos hk, tailFrom_of_le hk]
    · rw [if_neg hk, tailFrom_of_lt (Nat.not_le.mp hk), mul_zero, add_zero]
  rw [combineFrom, Vec.get_ofFn, hterm, foldl_add_eq_sum, zero_add]
  rfl

/-- With as many active constraints as variables the point has nowhere to go. -/
theorem primal_of_full {ws : Workspace ℝ n slots} (h : n ≤ ws.count) (v : Vector ℝ n) :
    (ws.aim v).primal.get = 0 := by
  have htail : tailFrom ws.count (ws.basis.toMatrixᵀ *ᵥ v.get) = 0 :=
    funext fun i => tailFrom_of_lt (i.isLt.trans_le h) _
  rw [get_primal_aim, htail, Matrix.mulVec_zero]

/-- Substitution solves the triangular system for the dual direction. -/
theorem sum_dualDirection {ws : Workspace ℝ n slots}
    (hupper : ∀ i < ws.count, ∀ k < i, ws.triangle.extend i k = 0) {direction : Vector ℝ ws.count}
    (h : ws.dualDirection = .ok direction) {i : Nat} (hi : i < ws.count) :
    ∑ k ∈ Finset.range ws.count, Vec.extend direction k * ws.triangle.extend i k =
      Vec.extend ws.image i := by
  unfold dualDirection at h
  dsimp only at h
  split at h
  · cases h
  · next hpivot =>
    cases h
    have hsolve := Triangular.mulVec_solveUpper (fun x y : ℝ => rfl) (ws.triangle.leading ws.count)
      (Vector.ofFn fun j : Fin ws.count => Vec.extend ws.image j)
      (fun a b hba => by rw [Mat.leading, Mat.entry_ofFn]; exact hupper a a.isLt b hba)
      (Triangular.hasZeroPivot_eq_false.mp (Bool.eq_false_iff.mpr hpivot))
    have hrow := congrFun hsolve ⟨i, hi⟩
    rw [Vec.get_ofFn] at hrow
    rw [← hrow, Finset.sum_range]
    apply Finset.sum_congr rfl
    intro k _
    rw [Vec.extend_of_lt _ k.isLt, mul_comm]
    show _ = (ws.triangle.leading ws.count).entry ⟨i, hi⟩ k * _
    rw [Mat.leading, Mat.entry_ofFn]

/-- There is a dual direction unless an entry on the diagonal is zero. -/
theorem exists_dualDirection {ws : Workspace ℝ n slots}
    (h : ∀ k < ws.count, ws.triangle.extend k k ≠ 0) :
    ∃ direction, ws.dualDirection = .ok direction := by
  have hpivot : Triangular.hasZeroPivot (ws.triangle.leading ws.count) = false :=
    Triangular.hasZeroPivot_eq_false.mpr fun k => by
      rw [Mat.leading, Mat.entry_ofFn]
      exact h k k.isLt
  unfold dualDirection
  dsimp only
  rw [hpivot]
  exact ⟨_, rfl⟩

theorem exists_dualDirection_of_empty {ws : Workspace ℝ n slots} (h : ws.count = 0) :
    ∃ direction, ws.dualDirection = .ok direction :=
  exists_dualDirection fun k hk => absurd (h ▸ hk) (Nat.not_lt_zero k)

theorem canMove_iff (ws : Workspace ℝ n slots) :
    ws.canMove = true ↔ Scalar.epsilon < Vec.dot ws.primal ws.primal := by
  have hnonneg : 0 ≤ Vec.dot ws.primal ws.primal := by
    rw [Vec.dot_eq]
    exact Finset.sum_nonneg fun i _ => mul_self_nonneg _
  simp only [canMove, Scalar.lt_real, Scalar.abs_real, decide_eq_true_eq, abs_of_nonneg hnonneg]

theorem primal_ne_zero_of_canMove {ws : Workspace ℝ n slots} (h : ws.canMove = true) :
    ws.primal.get ≠ 0 := by
  intro hzero
  have hlt := ws.canMove_iff.mp h
  rw [Vec.dot_eq, hzero, zero_dotProduct] at hlt
  exact absurd hlt (not_lt.mpr Scalar.epsilon_pos.le)

theorem canMove_eq_false {ws : Workspace ℝ n slots} (h : ws.primal.get = 0) :
    ws.canMove = false :=
  Bool.eq_false_iff.mpr fun hmove => primal_ne_zero_of_canMove hmove h

/-- A direction that is short enough to count as none is none, if no direction is short but not
zero. -/
theorem primal_eq_zero_of_stay {ws : Workspace ℝ n slots}
    (hsquare : Vec.dot ws.primal ws.primal = 0 ∨ Scalar.epsilon < Vec.dot ws.primal ws.primal)
    (hstay : ws.canMove = false) : ws.primal.get = 0 := by
  rcases hsquare with hzero | hlt
  · rw [Vec.dot_eq] at hzero
    exact dotProduct_self_eq_zero.mp hzero
  · rw [(canMove_iff _).mpr hlt] at hstay
    cases hstay

theorem dot_primal_ne_zero {ws : Workspace ℝ n slots} (h : ws.primal.get ≠ 0) :
    Vec.dot ws.primal ws.primal ≠ 0 := by
  rw [Vec.dot_eq]
  exact fun hzero => h (dotProduct_self_eq_zero.mp hzero)

end Workspace

end ActiveSet

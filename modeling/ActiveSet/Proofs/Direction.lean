import ActiveSet.Proofs.Columns
/-
  What the step directions are good for

  The point moves along `z = J t`, where `t` is the tail of the image of the
  normal `v`. Whatever the residues are, `A z` has the image `t`, and both
  `v · z` and `z · A z` are the squared length of `t`.

  Where the columns miss nothing, an active normal is orthogonal to `z`, the
  dual direction `r` solves `v = A z + Σ r n` over the active normals `n`
  (`normal_eq`), and no combination of active normals is of the form `A z`
  unless all its coefficients are zero (`coefficients_eq_zero`).
-/

open Matrix

namespace ActiveSet

variable {n e m slots : Nat}

namespace Factored

variable {A : Mat ℝ n n} {ws : Workspace ℝ n slots} {normal : Nat → Fin n → ℝ}
  {residue : Nat → ℝ}

/-! ## Lengths that do not depend on the residues -/

theorem transpose_mul (h : Factored A ws.factors normal residue) :
    ws.basis.toMatrixᵀ * (A.toMatrix * ws.basis.toMatrix) = 1 := by
  have hinverse := h.inverse
  rw [← Matrix.mul_assoc] at hinverse
  exact mul_eq_one_comm.mp hinverse

/-- Vectors with the same image are equal. -/
theorem image_injective (h : Factored A ws.factors normal residue) {u w : Fin n → ℝ}
    (huw : ws.basis.toMatrixᵀ *ᵥ u = ws.basis.toMatrixᵀ *ᵥ w) : u = w := by
  have hinverse := h.inverse
  change A.toMatrix * (ws.basis.toMatrix * ws.basis.toMatrixᵀ) = 1 at hinverse
  have hback (x : Fin n → ℝ) :
      (A.toMatrix * ws.basis.toMatrix) *ᵥ (ws.basis.toMatrixᵀ *ᵥ x) = x := by
    rw [Matrix.mulVec_mulVec, Matrix.mul_assoc, hinverse, Matrix.one_mulVec]
  calc u = (A.toMatrix * ws.basis.toMatrix) *ᵥ (ws.basis.toMatrixᵀ *ᵥ u) := (hback u).symm
    _ = (A.toMatrix * ws.basis.toMatrix) *ᵥ (ws.basis.toMatrixᵀ *ᵥ w) := by rw [huw]
    _ = w := hback w

/-- The image of `A z` is the tail of the image that `z` was made from. -/
theorem image_mulVec_primal (h : Factored A ws.factors normal residue) (v : Vector ℝ n) :
    ws.basis.toMatrixᵀ *ᵥ (A.toMatrix *ᵥ (ws.aim v).primal.get) =
      tailFrom ws.count (ws.basis.toMatrixᵀ *ᵥ v.get) := by
  calc ws.basis.toMatrixᵀ *ᵥ (A.toMatrix *ᵥ (ws.aim v).primal.get)
      = (ws.basis.toMatrixᵀ * (A.toMatrix * ws.basis.toMatrix)) *ᵥ
          tailFrom ws.count (ws.basis.toMatrixᵀ *ᵥ v.get) := by
        rw [ws.get_primal_aim, Matrix.mulVec_mulVec, Matrix.mulVec_mulVec, Matrix.mul_assoc]
    _ = tailFrom ws.count (ws.basis.toMatrixᵀ *ᵥ v.get) := by
        rw [h.transpose_mul, Matrix.one_mulVec]

theorem dot_primal (v : Vector ℝ n) :
    v.get ⬝ᵥ (ws.aim v).primal.get =
      tailFrom ws.count (ws.basis.toMatrixᵀ *ᵥ v.get) ⬝ᵥ
        tailFrom ws.count (ws.basis.toMatrixᵀ *ᵥ v.get) := by
  rw [ws.get_primal_aim, dotProduct_mulVec_eq, dotProduct_tailFrom]

/-- The point never moves away from the constraint. -/
theorem curvature_nonneg (ws : Workspace ℝ n slots) (c : Constraint ℝ n) :
    0 ≤ (ws.aim c.normal).curvature c := by
  rw [Workspace.curvature, Vec.dot_eq, dotProduct_comm, dot_primal]
  exact Finset.sum_nonneg fun i _ => mul_self_nonneg _

theorem curvature_pos_of_tail {ws : Workspace ℝ n slots} {c : Constraint ℝ n}
    (htail : tailFrom ws.count (ws.basis.toMatrixᵀ *ᵥ c.normal.get) ≠ 0) :
    0 < (ws.aim c.normal).curvature c := by
  refine lt_of_le_of_ne (curvature_nonneg ws c) fun hzero => htail ?_
  rw [Workspace.curvature, Vec.dot_eq, dotProduct_comm, dot_primal] at hzero
  exact dotProduct_self_eq_zero.mp hzero.symm

theorem primal_dot_mulVec (h : Factored A ws.factors normal residue) (v : Vector ℝ n) :
    (ws.aim v).primal.get ⬝ᵥ (A.toMatrix *ᵥ (ws.aim v).primal.get) =
      v.get ⬝ᵥ (ws.aim v).primal.get := by
  have hmoved : (ws.aim v).primal.get =
      ws.basis.toMatrix *ᵥ tailFrom ws.count (ws.basis.toMatrixᵀ *ᵥ v.get) := ws.get_primal_aim v
  calc (ws.aim v).primal.get ⬝ᵥ (A.toMatrix *ᵥ (ws.aim v).primal.get)
      = (A.toMatrix *ᵥ (ws.aim v).primal.get) ⬝ᵥ
          ws.basis.toMatrix *ᵥ tailFrom ws.count (ws.basis.toMatrixᵀ *ᵥ v.get) := by
        rw [dotProduct_comm, ← hmoved]
    _ = (ws.basis.toMatrixᵀ *ᵥ (A.toMatrix *ᵥ (ws.aim v).primal.get)) ⬝ᵥ
          tailFrom ws.count (ws.basis.toMatrixᵀ *ᵥ v.get) := dotProduct_mulVec_eq _ _ _
    _ = tailFrom ws.count (ws.basis.toMatrixᵀ *ᵥ v.get) ⬝ᵥ
          tailFrom ws.count (ws.basis.toMatrixᵀ *ᵥ v.get) := by rw [h.image_mulVec_primal v]
    _ = v.get ⬝ᵥ (ws.aim v).primal.get := (dot_primal v).symm

theorem primal_eq_zero (h : Factored A ws.factors normal residue) {v : Vector ℝ n} :
    (ws.aim v).primal.get = 0 ↔ tailFrom ws.count (ws.basis.toMatrixᵀ *ᵥ v.get) = 0 := by
  constructor
  · intro hzero
    rw [← h.image_mulVec_primal v, hzero, Matrix.mulVec_zero, Matrix.mulVec_zero]
  · intro hzero
    rw [ws.get_primal_aim, hzero, Matrix.mulVec_zero]

/-- Where nothing is active the point moves straight towards the constraint. -/
theorem mulVec_primal_of_free (h : Factored A ws.factors normal residue) (hfree : ws.count = 0)
    (v : Vector ℝ n) : A.toMatrix *ᵥ (ws.aim v).primal.get = v.get := by
  apply h.image_injective
  rw [h.image_mulVec_primal]
  exact funext fun i => tailFrom_of_le (hfree.trans_le (Nat.zero_le _)) _

/-- In one variable that is a division. -/
theorem get_primal_of_one {A : Mat ℝ 1 1} {ws : Workspace ℝ 1 slots} {normal : Nat → Fin 1 → ℝ}
    (h : Factored A ws.factors normal residue) (hfree : ws.count = 0) (v : Vector ℝ 1) :
    (ws.aim v).primal.get 0 = v.get 0 / A.entry 0 0 := by
  have hinverse := congrFun (congrFun h.inverse 0) 0
  rw [Matrix.mul_apply, Fin.sum_univ_one, Matrix.one_apply_eq] at hinverse
  have hne : A.entry 0 0 ≠ 0 := left_ne_zero_of_mul_eq_one hinverse
  have hrow : A.entry 0 0 * (ws.aim v).primal.get 0 = v.get 0 := by
    rw [← congrFun (h.mulVec_primal_of_free hfree v) 0, Matrix.mulVec, dotProduct,
      Fin.sum_univ_one]
    rfl
  rw [← hrow, mul_div_cancel_left₀ _ hne]

/-- A point that moves at all moves towards the constraint. -/
theorem curvature_pos (h : Factored A ws.factors normal residue) {c : Constraint ℝ n}
    (hmove : (ws.aim c.normal).primal.get ≠ 0) : 0 < (ws.aim c.normal).curvature c :=
  curvature_pos_of_tail fun hzero => hmove (h.primal_eq_zero.mpr hzero)

theorem curvature_pos_of_canMove (h : Factored A ws.factors normal residue) {c : Constraint ℝ n}
    (hmove : (ws.aim c.normal).canMove = true) : 0 < (ws.aim c.normal).curvature c :=
  h.curvature_pos (Workspace.primal_ne_zero_of_canMove hmove)

/-- A constraint is accepted only if the point can move towards it, however little. -/
theorem primal_ne_zero_of_fold (h : Factored A ws.factors normal residue) {v : Vector ℝ n}
    {ws₁ ws₂ : Workspace ℝ n slots} (hcount : ws₁.count = ws.count)
    (hscale : ws₁.pivotScale = ws.pivotScale) (himage : ws₁.image = (ws.aim v).image)
    (hfold : ws₁.fold = (ws₂, true)) : (ws.aim v).primal.get ≠ 0 := by
  intro hzero
  obtain ⟨hlt, T, hT, -, -, -, hpivot, -, -⟩ := Workspace.fold_spec hfold
  rw [himage, ws.get_image_aim, hscale] at hpivot
  have htail := h.primal_eq_zero.mp hzero
  -- without a direction the image has no tail, and the fold would find no pivot in it
  have hvanish : ∀ i : Fin n, ws₁.count ≤ i.val → (ws.basis.toMatrixᵀ *ᵥ v.get) i = 0 := by
    intro i hi
    rw [← tailFrom_of_le (show ws.count ≤ i.val by omega) (ws.basis.toMatrixᵀ *ᵥ v.get), htail]
    rfl
  rw [hT.eq_self hvanish, hvanish _ (le_refl _), abs_zero] at hpivot
  have hpos : (0 : ℝ) < Scalar.epsilon * ws.pivotScale :=
    mul_pos Scalar.epsilon_pos (lt_of_lt_of_le one_pos h.scale)
  linarith

/-! ## Columns that miss nothing -/

theorem image_normal (h : Factored A ws.factors normal residue) {k : Fin n}
    (hk : k.val < ws.count) (hexact : residue k = 0) :
    ws.basis.toMatrixᵀ *ᵥ normal k = ws.triangle.columnAt k := by
  have hmissed := h.missed k hk
  rw [hexact] at hmissed
  exact sub_eq_zero.mp (dotProduct_self_eq_zero.mp hmissed)

/-- The point moves along an active constraint whose column misses nothing. -/
theorem normal_dot_primal (h : Factored A ws.factors normal residue) {k : Nat}
    (hk : k < ws.count) (hexact : residue k = 0) (v : Vector ℝ n) :
    normal k ⬝ᵥ (ws.aim v).primal.get = 0 := by
  have hcount : ws.count ≤ n := h.count_le
  rw [ws.get_primal_aim, dotProduct_mulVec_eq,
    h.image_normal (show (⟨k, by omega⟩ : Fin n).val < ws.count from hk) hexact]
  apply Finset.sum_eq_zero
  intro i _
  rcases Nat.lt_or_ge i.val ws.count with hi | hi
  · rw [tailFrom_of_lt hi, mul_zero]
  · have hzero : ws.triangle.entry i ⟨k, by omega⟩ = 0 := h.upper i _ (.inl (by simp only; omega))
    rw [Mat.columnAt, hzero, zero_mul]

/-- The image of a combination of active normals is that of their columns. -/
theorem image_sum (h : Factored A ws.factors normal residue)
    (hexact : ∀ k < ws.count, residue k = 0) (c : Nat → ℝ) (i : Fin n) :
    (ws.basis.toMatrixᵀ *ᵥ ∑ k ∈ Finset.range ws.count, c k • normal k) i =
      ∑ k ∈ Finset.range ws.count, c k * ws.triangle.extend i k := by
  have hcount : ws.count ≤ n := h.count_le
  rw [Matrix.mulVec_sum, Finset.sum_apply]
  apply Finset.sum_congr rfl
  intro k hk
  have hk := Finset.mem_range.mp hk
  rw [Matrix.mulVec_smul, Pi.smul_apply, smul_eq_mul,
    h.image_normal (show (⟨k, by omega⟩ : Fin n).val < ws.count from hk) (hexact k hk),
    Mat.extend, dif_pos ⟨i.isLt, by omega⟩]
  rfl

theorem extend_triangle_eq_zero (h : Factored A ws.factors normal residue) {i k : Nat}
    (hik : k < i) : ws.triangle.extend i k = 0 := by
  unfold Mat.extend
  split
  · next hin => exact h.upper ⟨i, hin.1⟩ ⟨k, hin.2⟩ (.inl hik)
  · rfl

/-- A combination of active normals that the point could move along is empty: its coefficients
solve a triangular system without a right-hand side, from the last slot to the first. -/
theorem coefficients_eq_zero (h : Factored A ws.factors normal residue)
    (hexact : ∀ k < ws.count, residue k = 0) {c : Nat → ℝ} {v : Vector ℝ n}
    (hsum : A.toMatrix *ᵥ (ws.aim v).primal.get = ∑ k ∈ Finset.range ws.count, c k • normal k) :
    ∀ k < ws.count, c k = 0 := by
  have hcount : ws.count ≤ n := h.count_le
  have hrows (i : Fin n) (hi : i.val < ws.count) :
      ∑ k ∈ Finset.range ws.count, c k * ws.triangle.extend i k = 0 := by
    rw [← h.image_sum hexact c i, ← hsum, h.image_mulVec_primal, tailFrom_of_lt hi]
  -- from the last slot to the first, as substitution goes
  have hfrom (last : Nat) : ∀ k < ws.count, ws.count - last ≤ k → c k = 0 := by
    induction last with
    | zero => exact fun k hk hlast => by omega
    | succ last ih =>
      intro k hk hlast
      have hrow := hrows ⟨k, by omega⟩ hk
      rw [Finset.sum_eq_single_of_mem k (Finset.mem_range.mpr hk) fun j hj hjk => ?_] at hrow
      · have hdiagonal : Scalar.epsilon < |ws.triangle.entry ⟨k, by omega⟩ ⟨k, by omega⟩| :=
          h.diagonal ⟨k, by omega⟩ hk
        rw [Mat.extend, dif_pos ⟨by omega, by omega⟩] at hrow
        refine (mul_eq_zero.mp hrow).resolve_right ?_
        intro hzero
        rw [hzero, abs_zero] at hdiagonal
        exact absurd hdiagonal (not_lt.mpr Scalar.epsilon_pos.le)
      · have hj := Finset.mem_range.mp hj
        rcases Nat.lt_or_ge j k with hlt | hge
        · rw [h.extend_triangle_eq_zero hlt, mul_zero]
        · rw [ih j hj (by omega), zero_mul]
  exact fun k hk => hfrom ws.count k hk (by omega)

/-! ## The dual direction -/

/-- No entry on the diagonal is zero, so there is a dual direction. -/
theorem exists_dualDirection (h : Factored A ws.factors normal residue) (v : Vector ℝ n) :
    ∃ direction, (ws.aim v).dualDirection = .ok direction := by
  apply Workspace.exists_dualDirection
  intro k hk
  change k < ws.count at hk
  have hcount : ws.count ≤ n := h.count_le
  have hdiagonal : Scalar.epsilon < |ws.triangle.entry ⟨k, by omega⟩ ⟨k, by omega⟩| :=
    h.diagonal ⟨k, by omega⟩ hk
  show ws.triangle.extend k k ≠ 0
  rw [Mat.extend, dif_pos ⟨by omega, by omega⟩]
  intro hzero
  rw [hzero, abs_zero] at hdiagonal
  exact absurd hdiagonal (not_lt.mpr Scalar.epsilon_pos.le)

/-- The dual direction solves the triangular system for the head of the image. -/
theorem sum_direction (h : Factored A ws.factors normal residue) {v : Vector ℝ n}
    {direction : Vector ℝ (ws.aim v).count} (hdirection : (ws.aim v).dualDirection = .ok direction)
    {i : Fin n} (hi : i.val < ws.count) :
    ∑ k ∈ Finset.range ws.count, Vec.extend direction k * ws.triangle.extend i k =
      (ws.basis.toMatrixᵀ *ᵥ v.get) i := by
  have hupper : ∀ i < (ws.aim v).count, ∀ k < i, (ws.aim v).triangle.extend i k = 0 :=
    fun _ _ _ hik => h.extend_triangle_eq_zero hik
  have hrow := Workspace.sum_dualDirection hupper hdirection hi
  rw [Vec.extend_of_lt _ i.isLt, Fin.eta, ws.get_image_aim] at hrow
  exact hrow

/-- The normal in hand, split into what moves the point and what moves the dual values. -/
theorem normal_eq (h : Factored A ws.factors normal residue)
    (hexact : ∀ k < ws.count, residue k = 0) {v : Vector ℝ n}
    {direction : Vector ℝ (ws.aim v).count}
    (hdirection : (ws.aim v).dualDirection = .ok direction) :
    v.get = A.toMatrix *ᵥ (ws.aim v).primal.get +
      ∑ k ∈ Finset.range ws.count, Vec.extend direction k • normal k := by
  apply h.image_injective
  rw [Matrix.mulVec_add, h.image_mulVec_primal]
  funext i
  rw [Pi.add_apply, h.image_sum hexact]
  rcases Nat.lt_or_ge i.val ws.count with hi | hi
  -- the head is what the dual direction solves for, the tail is the image of `A z`
  · rw [tailFrom_of_lt hi, zero_add, h.sum_direction hdirection hi]
  · rw [tailFrom_of_le hi, Finset.sum_eq_zero, add_zero]
    intro k hk
    have hk := Finset.mem_range.mp hk
    rw [h.extend_triangle_eq_zero (show k < i.val by omega), mul_zero]

end Factored

end ActiveSet

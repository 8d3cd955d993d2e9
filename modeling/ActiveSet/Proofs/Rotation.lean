import ActiveSet.Proofs.Exact
/-
  Plane rotations in exact arithmetic

  A rotation made for a pair is the reflection `[[c, s], [s, -c]]` with
  `c² + s² = 1` and `c ≥ 0` (`clears_ofPair?`), and the multiplication-saving
  update of the second component computes it (`second_eq`). Applied to two
  columns of a matrix it acts on every row as `turn`, a linear map that keeps
  inner products and undoes itself (`turn_turn`).

  A run of rotations is summed up by `KeepsBelow T k`: `T` is linear, keeps
  inner products, and leaves the first `k` coordinates alone. That is all the
  factorization proofs know about the rotations of a fold or of a deletion.
-/

open Matrix

namespace ActiveSet

/-- A linear map that keeps inner products and the coordinates before `k`. -/
structure KeepsBelow {n : Nat} (T : (Fin n → ℝ) →ₗ[ℝ] (Fin n → ℝ)) (k : Nat) : Prop where
  dot : ∀ u v, T u ⬝ᵥ T v = u ⬝ᵥ v
  low : ∀ v i, i.val < k → T v i = v i

namespace KeepsBelow

variable {n k : Nat} {T S : (Fin n → ℝ) →ₗ[ℝ] (Fin n → ℝ)}

theorem id : KeepsBelow (LinearMap.id : (Fin n → ℝ) →ₗ[ℝ] (Fin n → ℝ)) k :=
  ⟨fun _ _ => rfl, fun _ _ _ => rfl⟩

theorem comp (hT : KeepsBelow T k) (hS : KeepsBelow S k) : KeepsBelow (T ∘ₗ S) k := by
  constructor
  · intro u v
    rw [LinearMap.comp_apply, LinearMap.comp_apply, hT.dot, hS.dot]
  · intro v i hi
    rw [LinearMap.comp_apply, hT.low _ _ hi, hS.low _ _ hi]

theorem mono {l : Nat} (hT : KeepsBelow T k) (h : l ≤ k) : KeepsBelow T l :=
  ⟨hT.dot, fun v i hi => hT.low v i (lt_of_lt_of_le hi h)⟩

/-- What has no component from `k` on stays as it is: the first coordinates stay, and a longer
vector would not have kept its length. -/
theorem eq_self (hT : KeepsBelow T k) {v : Fin n → ℝ} (hv : ∀ i, k ≤ i.val → v i = 0) :
    T v = v := by
  have hdiff : (T v - v) ⬝ᵥ (T v - v) = 0 := by
    -- `v` sees only the coordinates that stay
    have hcross : T v ⬝ᵥ v = v ⬝ᵥ v := by
      apply Finset.sum_congr rfl
      intro i _
      rcases lt_or_ge i.val k with hi | hi
      · rw [hT.low v i hi]
      · rw [hv i hi, mul_zero, mul_zero]
    rw [sub_dotProduct, dotProduct_sub, dotProduct_sub, hT.dot, hcross, dotProduct_comm v (T v),
      hcross]
    ring
  exact sub_eq_zero.mp (dotProduct_self_eq_zero.mp hdiff)

/-- The image of a vector under the transpose turns as the rows of the matrix do. -/
theorem transpose_mulVec {m : Nat} {A B : Matrix (Fin m) (Fin n) ℝ} (h : ∀ i, B i = T (A i))
    (x : Fin m → ℝ) : Bᵀ *ᵥ x = T (Aᵀ *ᵥ x) := by
  have hrows (M : Matrix (Fin m) (Fin n) ℝ) : Mᵀ *ᵥ x = ∑ i, x i • M i := by
    funext k
    simp [Matrix.mulVec, dotProduct, Finset.sum_apply, mul_comm]
  rw [hrows, hrows, map_sum]
  exact Finset.sum_congr rfl fun i _ => by rw [h i, map_smul]

theorem mul_transpose (hT : KeepsBelow T k) {m : Nat} {A B : Matrix (Fin m) (Fin n) ℝ}
    (h : ∀ i, B i = T (A i)) : B * Bᵀ = A * Aᵀ := by
  ext i j
  show B i ⬝ᵥ B j = A i ⬝ᵥ A j
  rw [h i, h j, hT.dot]

end KeepsBelow

namespace Rotation

variable {n : Nat} {g : Rotation ℝ}

/-- Whether the coefficients are those of a reflection that faces the first component. -/
structure IsTurn (g : Rotation ℝ) : Prop where
  unit : g.cosine * g.cosine + g.sine * g.sine = 1
  cosine_nonneg : 0 ≤ g.cosine

theorem ofPair?_eq_none {a b ε : ℝ} : ofPair? a b ε = none ↔ Scalar.hypot a b < ε := by
  simp only [ofPair?, Scalar.lt_real, decide_eq_true_eq]
  split
  · next h => exact ⟨fun _ => h, fun _ => rfl⟩
  · next h =>
    refine ⟨?_, fun hlt => absurd hlt h⟩
    intro hnone
    split at hnone <;> cases hnone

theorem hypot_mul_self (a b : ℝ) : Scalar.hypot a b * Scalar.hypot a b = a * a + b * b :=
  Real.mul_self_sqrt (add_nonneg (mul_self_nonneg a) (mul_self_nonneg b))

theorem abs_le_hypot (a b : ℝ) : |a| ≤ Scalar.hypot a b :=
  Real.abs_le_sqrt (by nlinarith [mul_self_nonneg b])

/-- A pair with nothing to clear gets the reflection that changes the sign of its second
component. -/
theorem ofPair?_zero {a ε : ℝ} (ha : 0 < a) (hε : ε ≤ a) : ofPair? a 0 ε = some ⟨1, 0, a⟩ := by
  have hlength : Scalar.hypot a 0 = a := by
    rw [Scalar.hypot_real, mul_zero, add_zero, Real.sqrt_mul_self ha.le]
  simp [ofPair?, hlength, not_lt.mpr hε, div_self ha.ne']

/-- What a rotation does for the pair it was made for. -/
structure Clears (g : Rotation ℝ) (a b : ℝ) : Prop extends IsTurn g where
  first : g.cosine * a + g.sine * b = g.length
  second : g.sine * a - g.cosine * b = 0
  length : g.length * g.length = a * a + b * b

/-- The coefficients of a pair, by the side to which it points. -/
theorem ofPair?_cases {a b ε : ℝ} (h : ofPair? a b ε = some g) :
    ε ≤ Scalar.hypot a b ∧
      (a / Scalar.hypot a b < 0 ∧
          g = ⟨-(a / Scalar.hypot a b), -(b / Scalar.hypot a b), -Scalar.hypot a b⟩ ∨
        0 ≤ a / Scalar.hypot a b ∧
          g = ⟨a / Scalar.hypot a b, b / Scalar.hypot a b, Scalar.hypot a b⟩) := by
  have hlong : ¬ Scalar.hypot a b < ε := fun hlt => by
    rw [ofPair?_eq_none.mpr hlt] at h
    cases h
  simp only [ofPair?, Scalar.lt_real, decide_eq_true_eq, if_neg hlong] at h
  refine ⟨not_lt.mp hlong, ?_⟩
  split at h
  · next hneg => exact .inl ⟨hneg, (Option.some.inj h).symm⟩
  · next hneg => exact .inr ⟨not_lt.mp hneg, (Option.some.inj h).symm⟩

theorem clears_ofPair? {a b ε : ℝ} (hε : 0 < ε) (h : ofPair? a b ε = some g) :
    g.Clears a b := by
  obtain ⟨hlong, hsides⟩ := ofPair?_cases h
  have hsq := hypot_mul_self a b
  have hne : Scalar.hypot a b ≠ 0 := (lt_of_lt_of_le hε hlong).ne'
  generalize Scalar.hypot a b = l at *
  have hunit : a / l * (a / l) + b / l * (b / l) = 1 := by
    field_simp
    linarith
  have hfirst : a / l * a + b / l * b = l := by
    field_simp
    linarith
  obtain ⟨hneg, rfl⟩ | ⟨hnonneg, rfl⟩ := hsides
  · refine ⟨⟨?_, ?_⟩, ?_, ?_, ?_⟩
    · simpa using hunit
    · exact (neg_pos.mpr hneg).le
    · simp only [neg_mul]
      linarith
    · ring
    · simpa using hsq
  · refine ⟨⟨hunit, hnonneg⟩, hfirst, ?_, hsq⟩
    ring

theorem exists_ofPair? {a b ε : ℝ} (hlong : ε ≤ Scalar.hypot a b) : ∃ g, ofPair? a b ε = some g := by
  cases hpair : ofPair? a b ε with
  | none => exact absurd (ofPair?_eq_none.mp hpair) (not_lt.mpr hlong)
  | some g => exact ⟨g, rfl⟩

theorem Clears.abs_length {a b : ℝ} (hg : g.Clears a b) : |g.length| = Scalar.hypot a b := by
  rw [Scalar.hypot_real, ← hg.length, Real.sqrt_mul_self_eq_abs]

theorem first_eq (u v : ℝ) : g.first u v = g.cosine * u + g.sine * v := rfl

/-- The update that saves a product is the reflection. -/
theorem second_eq (hg : g.IsTurn) (u v : ℝ) : g.second u v = g.sine * u - g.cosine * v := by
  have hpos : 0 < 1 + g.cosine := by linarith [hg.cosine_nonneg]
  have hunit := hg.unit
  show g.sine / (1 + g.cosine) * (u + (g.cosine * u + g.sine * v)) - v = _
  have hne := hpos.ne'
  field_simp
  linear_combination v * hunit

/-- The reflection of the coordinates `i` and `j`. -/
def turn (g : Rotation ℝ) (i j : Fin n) : (Fin n → ℝ) →ₗ[ℝ] (Fin n → ℝ) where
  toFun v k :=
    if k = j then g.sine * v i - g.cosine * v j
    else if k = i then g.cosine * v i + g.sine * v j
    else v k
  map_add' u v := by
    funext k
    simp only [Pi.add_apply]
    split_ifs <;> ring
  map_smul' a v := by
    funext k
    simp only [Pi.smul_apply, smul_eq_mul, RingHom.id_apply]
    split_ifs <;> ring

theorem turn_apply (i j : Fin n) (v : Fin n → ℝ) (k : Fin n) :
    g.turn i j v k =
      if k = j then g.sine * v i - g.cosine * v j
      else if k = i then g.cosine * v i + g.sine * v j
      else v k := rfl

theorem turn_of_ne {i j k : Fin n} (hi : k ≠ i) (hj : k ≠ j) (v : Fin n → ℝ) :
    g.turn i j v k = v k := by
  rw [turn_apply, if_neg hj, if_neg hi]

theorem turn_eq_self {i j : Fin n} {v : Fin n → ℝ} (hi : v i = 0) (hj : v j = 0) :
    g.turn i j v = v := by
  funext k
  rw [turn_apply, hi, hj]
  split_ifs with h₁ h₂
  · simp [h₁, hj]
  · simp [h₂, hi]
  · rfl

/-- Turning two coordinates twice leads back. -/
theorem turn_turn (hg : g.IsTurn) {i j : Fin n} (hij : i ≠ j) (v : Fin n → ℝ) :
    g.turn i j (g.turn i j v) = v := by
  funext k
  simp only [turn_apply, if_pos, if_neg hij]
  split_ifs with hj hi
  · rw [hj]
    linear_combination v j * hg.unit
  · rw [hi]
    linear_combination v i * hg.unit
  · rfl

/-- The product of two pairs stays as it is when both turn. -/
theorem turn_pair (hg : g.IsTurn) {i j : Fin n} (hij : i ≠ j) (u v : Fin n → ℝ) :
    g.turn i j u i * g.turn i j v i + g.turn i j u j * g.turn i j v j =
      u i * v i + u j * v j := by
  simp only [turn_apply, if_pos, if_neg hij]
  linear_combination (u i * v i + u j * v j) * hg.unit

theorem turn_dot (hg : g.IsTurn) {i j : Fin n} (hij : i ≠ j) (u v : Fin n → ℝ) :
    g.turn i j u ⬝ᵥ g.turn i j v = u ⬝ᵥ v := by
  have hdiff : g.turn i j u ⬝ᵥ g.turn i j v - u ⬝ᵥ v =
      ∑ k, (g.turn i j u k * g.turn i j v k - u k * v k) := by
    rw [Finset.sum_sub_distrib]
    rfl
  have hpair : ∑ k, (g.turn i j u k * g.turn i j v k - u k * v k) =
      (g.turn i j u i * g.turn i j v i - u i * v i) +
        (g.turn i j u j * g.turn i j v j - u j * v j) :=
    Fintype.sum_eq_add i j hij fun k hk => by
      rw [turn_of_ne hk.1 hk.2, turn_of_ne hk.1 hk.2, sub_self]
  rw [← sub_eq_zero, hdiff, hpair]
  linear_combination turn_pair hg hij u v

theorem keepsBelow_turn (hg : g.IsTurn) {i j : Fin n} (hij : i < j) :
    KeepsBelow (g.turn i j) i.val := by
  refine ⟨turn_dot hg hij.ne, fun v k hk => turn_of_ne ?_ ?_ v⟩
  · exact Fin.ne_of_lt hk
  · exact Fin.ne_of_lt (lt_trans hk hij)

/-- Where columns are rotated, the selected rows turn. -/
theorem entry_onColumns_eq {m : Nat} (hg : g.IsTurn) (A : Mat ℝ m n) (i j : Fin n)
    (rows : Fin m → Bool) (r : Fin m) :
    (g.onColumns A i j rows).entry r = if rows r then g.turn i j (A.entry r) else A.entry r := by
  funext k
  rw [entry_onColumns]
  split
  · rw [turn_apply, second_eq hg, first_eq]
  · rfl

theorem entry_onColumns_true {m : Nat} (hg : g.IsTurn) (A : Mat ℝ m n) (i j : Fin n)
    (r : Fin m) : (g.onColumns A i j fun _ => true).entry r = g.turn i j (A.entry r) := by
  rw [entry_onColumns_eq hg, if_pos rfl]

end Rotation

end ActiveSet

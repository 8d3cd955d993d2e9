import ActiveSet.Proofs.Deletion
import ActiveSet.Proofs.Slots
/-
  The factorization that a workspace carries, in exact arithmetic

  `Factored A f normal residue` is the invariant: `J Jᵀ` inverts `A`; the
  triangle is zero outside the upper triangle of its leading block, with a
  diagonal above the threshold; and for each active slot `k` the vector
  `Jᵀ n - R e`, with `n` the slot's normal and `R e` column `k` of the
  triangle, has the squared length `residue k`.

  The residue of a slot is decided once, by the rotations that its own fold
  skipped. Later folds turn coordinates in which the column is zero, and
  deletions turn normal image and column alike, so neither changes its length
  (`Factored.fold`, `Factored.eraseAt`). A deletion skips no rotation at all,
  since every pair that it clears has an old diagonal entry as its second
  component (`Factored.not_isSkipped_erasePairs`).
-/

open Matrix

namespace ActiveSet

/-- The parts of a working state that make up its factorization. -/
structure Factors (α : Type) (n : Nat) where
  count : Nat
  pivotScale : α
  basis : Mat α n n
  triangle : Mat α n n

/-- The factorization in a workspace. -/
def Workspace.factors {α : Type} {n slots : Nat} (ws : Workspace α n slots) : Factors α n :=
  ⟨ws.count, ws.pivotScale, ws.basis, ws.triangle⟩

/-- The factorization in a saved copy. -/
def Snapshot.factors {α : Type} {n slots : Nat} (t : Snapshot α n slots) : Factors α n :=
  ⟨t.count, t.pivotScale, t.basis, t.triangle⟩

variable {n slots : Nat}

/-- What the factorization misses of an active normal: the part of its image `Jᵀ v` that is not in
column `k` of the triangle. -/
def Factors.miss (f : Factors ℝ n) (v : Fin n → ℝ) (k : Fin n) : Fin n → ℝ :=
  f.basis.toMatrixᵀ *ᵥ v - f.triangle.columnAt k

/-- The invariant of the factorization, for the normals of the active slots and the squared lengths
of what is missed of them. -/
structure Factored (A : Mat ℝ n n) (f : Factors ℝ n) (normal : Nat → Fin n → ℝ)
    (residue : Nat → ℝ) : Prop where
  count_le : f.count ≤ n
  inverse : A.toMatrix * (f.basis.toMatrix * f.basis.toMatrixᵀ) = 1
  upper : ∀ i k : Fin n, k.val < i.val ∨ f.count ≤ k.val → f.triangle.entry i k = 0
  diagonal : ∀ k : Fin n, k.val < f.count → Scalar.epsilon < |f.triangle.entry k k|
  scale : 1 ≤ f.pivotScale
  missed : ∀ k : Fin n, k.val < f.count →
    f.miss (normal k) k ⬝ᵥ f.miss (normal k) k = residue k

namespace Factored

variable {A : Mat ℝ n n} {f : Factors ℝ n} {normal : Nat → Fin n → ℝ} {residue : Nat → ℝ}

/-- Only the normals and residues of the active slots matter. -/
theorem congr {normal' : Nat → Fin n → ℝ} {residue' : Nat → ℝ} (h : Factored A f normal residue)
    (hnormal : ∀ k < f.count, normal' k = normal k)
    (hresidue : ∀ k < f.count, residue' k = residue k) : Factored A f normal' residue' := by
  refine ⟨h.count_le, h.inverse, h.upper, h.diagonal, h.scale, ?_⟩
  intro k hk
  rw [hnormal k hk, hresidue k hk]
  exact h.missed k hk

/-- Without active constraints it is enough that the basis is right. -/
theorem of_count_eq_zero (hcount : f.count = 0)
    (inverse : A.toMatrix * (f.basis.toMatrix * f.basis.toMatrixᵀ) = 1)
    (hzero : ∀ i k : Fin n, f.triangle.entry i k = 0) (hscale : 1 ≤ f.pivotScale) :
    Factored A f normal residue :=
  ⟨by omega, inverse, fun i k _ => hzero i k, fun k hk => by omega, hscale,
    fun k hk => by omega⟩

/-- A fold turns what is missed of an older normal, and does not change its length: the older
columns are zero where the fold acts. -/
theorem miss_fold_of_lt {ws ws' : Workspace ℝ n slots} (h : Factored A ws.factors normal residue)
    (hfold : ws.fold = (ws', true)) {k : Fin n} (hk : k.val < ws.count) (u : Fin n → ℝ) :
    ws'.factors.miss u k ⬝ᵥ ws'.factors.miss u k =
      ws.factors.miss u k ⬝ᵥ ws.factors.miss u k := by
  obtain ⟨hcount, T, hT, -, hrows, htriangle, -⟩ := Workspace.fold_spec hfold
  have hzero : ∀ i : Fin n, ws.count ≤ i.val → ws.triangle.columnAt k i = 0 := by
    intro i hi
    exact h.upper i k (.inl (by omega))
  have hcolumn : ws'.triangle.columnAt k = T (ws.triangle.columnAt k) := by
    rw [hT.eq_self hzero]
    funext i
    simp only [Mat.columnAt, htriangle]
    rw [if_neg (by omega)]
  have himages : ws'.basis.toMatrixᵀ *ᵥ u = T (ws.basis.toMatrixᵀ *ᵥ u) :=
    KeepsBelow.transpose_mulVec hrows u
  show (ws'.basis.toMatrixᵀ *ᵥ u - ws'.triangle.columnAt k) ⬝ᵥ
    (ws'.basis.toMatrixᵀ *ᵥ u - ws'.triangle.columnAt k) = _
  rw [himages, hcolumn, ← map_sub, hT.dot]
  rfl

/-- What is missed of the new normal is what the skipped rotations left. -/
theorem miss_fold_self {ws ws' : Workspace ℝ n slots} (h : Factored A ws.factors normal residue)
    {v : Fin n → ℝ} (himage : ws.image.get = ws.basis.toMatrixᵀ *ᵥ v)
    (hfold : ws.fold = (ws', true)) {k : Fin n} (hk : k.val = ws.count) :
    ws'.factors.miss v k ⬝ᵥ ws'.factors.miss v k = uncleared ws.foldPairs := by
  obtain ⟨hcount, T, hT, -, hrows, htriangle, -, -, hleft⟩ := Workspace.fold_spec hfold
  have himages : ws'.basis.toMatrixᵀ *ᵥ v = T (ws.basis.toMatrixᵀ *ᵥ v) :=
    KeepsBelow.transpose_mulVec hrows v
  show (ws'.basis.toMatrixᵀ *ᵥ v - ws'.triangle.columnAt k) ⬝ᵥ
    (ws'.basis.toMatrixᵀ *ᵥ v - ws'.triangle.columnAt k) = _
  rw [himages, ← himage, ← hleft, Workspace.squaresBetween, dotProduct]
  apply Finset.sum_congr rfl
  intro i _
  obtain rfl : k = ⟨ws.count, hcount⟩ := Fin.ext hk
  -- the column is the head of the turned image, so the tail is what is missed
  simp only [Pi.sub_apply, Mat.columnAt, htriangle, true_and]
  by_cases hi : i.val ≤ ws.count
  · rw [if_pos hi, if_neg (by omega), sub_self, mul_zero]
  · rw [if_neg hi, if_pos ⟨by omega, by omega⟩]
    have hzero : ws.triangle.entry i ⟨ws.count, hcount⟩ = 0 := h.upper i _ (.inr (le_refl _))
    rw [hzero, sub_zero]

/-- A fold that is accepted adds a slot. -/
theorem fold {ws ws' : Workspace ℝ n slots} (h : Factored A ws.factors normal residue)
    {v : Fin n → ℝ} (himage : ws.image.get = ws.basis.toMatrixᵀ *ᵥ v)
    (hfold : ws.fold = (ws', true)) :
    Factored A ws'.factors (Function.update normal ws.count v)
      (Function.update residue ws.count (uncleared ws.foldPairs)) := by
  obtain ⟨hcount, T, hT, hcount', hrows, htriangle, hpivot, hscale, -⟩ :=
    Workspace.fold_spec hfold
  have hinverse : ws'.basis.toMatrix * ws'.basis.toMatrixᵀ =
      ws.basis.toMatrix * ws.basis.toMatrixᵀ := hT.mul_transpose hrows
  -- the pivot test is relative to the scale, and the scale is one at least
  have hpos : Scalar.epsilon < |T ws.image.get ⟨ws.count, hcount⟩| := by
    have hone : (Scalar.epsilon : ℝ) * 1 ≤ Scalar.epsilon * ws.pivotScale :=
      mul_le_mul_of_nonneg_left h.scale Scalar.epsilon_pos.le
    linarith
  refine ⟨?_, ?_, ?_, ?_, ?_, ?_⟩
  · show ws'.count ≤ n
    omega
  · show A.toMatrix * (ws'.basis.toMatrix * ws'.basis.toMatrixᵀ) = 1
    rw [hinverse]
    exact h.inverse
  · intro i k hik
    change k.val < i.val ∨ ws'.count ≤ k.val at hik
    show ws'.triangle.entry i k = 0
    rw [htriangle, if_neg (by omega)]
    exact h.upper i k (hik.imp id fun hk => show ws.count ≤ k.val by omega)
  · intro k hk
    change k.val < ws'.count at hk
    show Scalar.epsilon < |ws'.triangle.entry k k|
    rw [htriangle]
    rcases Nat.lt_or_ge k.val ws.count with hlt | hge
    · rw [if_neg (by omega)]
      exact h.diagonal k hlt
    · obtain rfl : k = ⟨ws.count, hcount⟩ := Fin.ext (by simp only; omega)
      rw [if_pos ⟨rfl, le_refl _⟩]
      exact hpos
  · show 1 ≤ ws'.pivotScale
    rw [hscale]
    exact le_max_of_le_left h.scale
  · intro k hk
    change k.val < ws'.count at hk
    rcases Nat.lt_or_ge k.val ws.count with hlt | hge
    · rw [Function.update_of_ne (Nat.ne_of_lt hlt), Function.update_of_ne (Nat.ne_of_lt hlt),
        h.miss_fold_of_lt hfold hlt]
      exact h.missed k hlt
    · have hself : k.val = ws.count := by omega
      rw [hself, Function.update_self, Function.update_self, h.miss_fold_self himage hfold hself]

/-- The triangle without one of its columns has one entry below the diagonal in each later one. -/
theorem hessenberg_closeColumn {ws : Workspace ℝ n slots}
    (h : Factored A ws.factors normal residue) {p : Nat} (hp : p < ws.count) :
    Workspace.Hessenberg (ws.count - 1) p (Workspace.closeColumn ws.triangle p ws.count) ∧
      ∀ (k : Fin n) (hk : k.val < ws.count - 1),
        (Workspace.closeColumn ws.triangle p ws.count).columnAt k =
          ws.triangle.columnAt ⟨skip p k, by
            have := skip_le p k
            have : ws.count ≤ n := h.count_le
            omega⟩ := by
  have hcount : ws.count ≤ n := h.count_le
  have hupper : ∀ i k : Fin n, k.val < i.val ∨ ws.count ≤ k.val → ws.triangle.entry i k = 0 :=
    h.upper
  have hdiagonal : ∀ k : Fin n, k.val < ws.count → Scalar.epsilon < |ws.triangle.entry k k| :=
    h.diagonal
  have hmoved (i k : Fin n) (hk : k.val < ws.count - 1) :
      (Workspace.closeColumn ws.triangle p ws.count).entry i k =
        ws.triangle.entry i ⟨skip p k, by have := skip_le p k; omega⟩ := by
    simp only [Workspace.closeColumn, Mat.entry_ofFn, skip]
    by_cases hkp : k.val < p
    · simp only [if_pos hkp]
    · simp only [if_neg hkp]
      rw [if_pos (by omega), Mat.extend, dif_pos ⟨i.isLt, by omega⟩]
  have hempty (i k : Fin n) (hk : ws.count - 1 ≤ k.val) :
      (Workspace.closeColumn ws.triangle p ws.count).entry i k = 0 := by
    simp only [Workspace.closeColumn, Mat.entry_ofFn]
    rw [if_neg (by omega), if_neg (by omega)]
    split
    · rfl
    · exact hupper i k (by omega)
  refine ⟨⟨?_, ?_, hempty, ?_, ?_⟩, fun k hk => funext fun i => hmoved i k hk⟩
  · intro i k hk hik
    rw [hmoved i k (by omega)]
    exact hupper i _ (.inl (by simp only [skip, if_pos hk]; exact hik))
  · intro i k hik
    rcases Nat.lt_or_ge k.val (ws.count - 1) with hkc | hkc
    · rw [hmoved i k hkc]
      have := skip_le p k
      exact hupper i _ (.inl (by simp only; omega))
    · exact hempty i k hkc
  · intro k hk hkc
    rw [hmoved k k hkc]
    have hself : (⟨skip p k, by have := skip_le p k; omega⟩ : Fin n) = k :=
      Fin.ext (by simp only [skip, if_pos hk])
    rw [hself]
    exact hdiagonal k (by omega)
  -- what is below the diagonal now was on it in the column's old place
  · intro i k hik hk hkc
    rw [hmoved i k hkc]
    have hself : (⟨skip p k, by have := skip_le p k; omega⟩ : Fin n) = i :=
      Fin.ext (by simp only [skip, if_neg (Nat.not_lt.mpr hk)]; omega)
    rw [hself]
    exact hdiagonal i (by omega)

/-- Taking out a slot skips no rotation. -/
theorem not_isSkipped_erasePairs {ws : Workspace ℝ n slots}
    (h : Factored A ws.factors normal residue) {p : Nat} (hp : p < ws.count) :
    ∀ ab ∈ ws.erasePairs p, ¬ IsSkipped ab := by
  have hcount : ws.count ≤ n := h.count_le
  exact ((h.hessenberg_closeColumn hp).1.retriangulate (by omega) (ws.count - 1 - p) (by omega)
    ws.basis).2.2

/-- Taking out a slot leaves what is missed of the others as long as it was. -/
theorem eraseAt {ws : Workspace ℝ n slots} (h : Factored A ws.factors normal residue) {p : Nat}
    (hp : p < ws.count) :
    Factored A (ws.eraseAt p).factors (normal ∘ skip p) (residue ∘ skip p) := by
  have hcount : ws.count ≤ n := h.count_le
  obtain ⟨hclosed, hmoved⟩ := h.hessenberg_closeColumn hp
  obtain ⟨hlast, ⟨T, hT, hcols, hrows⟩, -⟩ :=
    hclosed.retriangulate (by show ws.count - 1 < n; omega) (ws.count - 1 - p) (by
      show p + (ws.count - 1 - p) = ws.count - 1
      omega) ws.basis
  change Workspace.Hessenberg (ws.count - 1) (ws.count - 1) (ws.eraseAt p).triangle at hlast
  have hrows' : ∀ r, (ws.eraseAt p).basis.entry r = T (ws.basis.entry r) := hrows
  refine ⟨?_, ?_, ?_, ?_, h.scale, ?_⟩
  · show ws.count - 1 ≤ n
    omega
  · show A.toMatrix * ((ws.eraseAt p).basis.toMatrix * (ws.eraseAt p).basis.toMatrixᵀ) = 1
    have hproduct : (ws.eraseAt p).basis.toMatrix * (ws.eraseAt p).basis.toMatrixᵀ =
        ws.basis.toMatrix * ws.basis.toMatrixᵀ := hT.mul_transpose hrows'
    rw [hproduct]
    exact h.inverse
  · intro i k hik
    change k.val < i.val ∨ ws.count - 1 ≤ k.val at hik
    show (ws.eraseAt p).triangle.entry i k = 0
    rcases Nat.lt_or_ge k.val (ws.count - 1) with hkc | hkc
    · exact hlast.triangular i k hkc (by omega)
    · exact hlast.empty i k hkc
  · intro k hk
    exact hlast.diagonal k hk hk
  · intro k hk
    change k.val < ws.count - 1 at hk
    have hskip : skip p k < ws.count := by have := skip_le p k; omega
    have hcolumn : (ws.eraseAt p).triangle.columnAt k =
        T (ws.triangle.columnAt ⟨skip p k, by omega⟩) :=
      (hcols k).trans (congrArg T (hmoved k hk))
    show ((ws.eraseAt p).basis.toMatrixᵀ *ᵥ _ - (ws.eraseAt p).triangle.columnAt k) ⬝ᵥ
      ((ws.eraseAt p).basis.toMatrixᵀ *ᵥ _ - (ws.eraseAt p).triangle.columnAt k) = _
    have himages (u : Fin n → ℝ) :
        (ws.eraseAt p).basis.toMatrixᵀ *ᵥ u = T (ws.basis.toMatrixᵀ *ᵥ u) :=
      KeepsBelow.transpose_mulVec hrows' u
    -- image and column turn alike, so what is missed keeps its length
    rw [hcolumn, himages, ← map_sub, hT.dot]
    exact h.missed ⟨skip p k, by omega⟩ hskip

end Factored

end ActiveSet

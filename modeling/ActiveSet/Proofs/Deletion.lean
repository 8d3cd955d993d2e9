import ActiveSet.Proofs.Fold
/-
  Taking a constraint out, in exact arithmetic

  Once a column is taken out, the columns behind it have one entry below the
  diagonal each: the diagonal entry that the column had before. `Hessenberg`
  is that shape, with columns before `j` already triangular. Clearing column
  `j` moves the boundary by one (`Hessenberg.clearBelow`), turns every column
  of the triangle and every row of the basis by the same rotation, and never
  skips it, since the entry to be cleared is above the threshold.
-/

open Matrix

namespace ActiveSet

/-- A column of a matrix as a function of the row. -/
def Mat.columnAt {m n : Nat} (A : Mat ℝ m n) (k : Fin n) : Fin m → ℝ := fun i => A.entry i k

namespace Workspace

variable {n slots : Nat}

/-- The triangle while it is made triangular again: columns before `j` are upper triangular, those
from `j` on reach one row further, those from `count` on are zero, and the lowest entries of the
others are above the threshold. -/
structure Hessenberg (count j : Nat) (R : Mat ℝ n n) : Prop where
  triangular : ∀ i k : Fin n, k.val < j → k.val < i.val → R.entry i k = 0
  hessenberg : ∀ i k : Fin n, k.val + 1 < i.val → R.entry i k = 0
  empty : ∀ i k : Fin n, count ≤ k.val → R.entry i k = 0
  diagonal : ∀ k : Fin n, k.val < j → k.val < count → Scalar.epsilon < |R.entry k k|
  below : ∀ i k : Fin n, i.val = k.val + 1 → j ≤ k.val → k.val < count →
    Scalar.epsilon < |R.entry i k|

/-- A pair whose second component is above the threshold is not skipped. -/
theorem not_isSkipped_of_lt_abs {ab : ℝ × ℝ} (h : Scalar.epsilon < |ab.2|) : ¬ IsSkipped ab := by
  intro hskip
  have hle := mul_self_le_of_isSkipped hskip
  rw [← abs_mul_abs_self ab.2] at hle
  have heps := Scalar.epsilon_pos
  nlinarith

section ClearBelow

variable {count j : Nat} {R : Mat ℝ n n} {g : Rotation ℝ} {here below : Fin n}

/-- A column that is finished, or past the active ones, is zero in both rows that turn. -/
theorem Hessenberg.turn_columnAt (hR : Hessenberg count j R) (hhere : here.val = j)
    (hbelow : below.val = j + 1) {k : Fin n} (hk : k.val < j ∨ count ≤ k.val) :
    g.turn here below (R.columnAt k) = R.columnAt k := by
  rcases hk with hk | hk
  · exact Rotation.turn_eq_self (hR.triangular _ _ hk (by omega)) (hR.triangular _ _ hk (by omega))
  · exact Rotation.turn_eq_self (hR.empty _ _ hk) (hR.empty _ _ hk)

/-- Turning every column by the rotation for column `j` moves the boundary on. -/
theorem Hessenberg.turn {R' : Mat ℝ n n} (hR : Hessenberg count j R) (hhere : here.val = j)
    (hbelow : below.val = j + 1)
    (hg : g.Clears (R.entry here here) (R.entry below here))
    (hR' : ∀ k, R'.columnAt k = g.turn here below (R.columnAt k)) :
    Hessenberg count (j + 1) R' := by
  have hentry (i k : Fin n) : R'.entry i k = g.turn here below (R.columnAt k) i :=
    congrFun (hR' k) i
  have hstays {k : Fin n} (hk : k.val < j ∨ count ≤ k.val) (i : Fin n) :
      R'.entry i k = R.entry i k := by
    rw [hentry, hR.turn_columnAt hhere hbelow hk]
    rfl
  have hother {i k : Fin n} (hi : i ≠ here) (hi' : i ≠ below) : R'.entry i k = R.entry i k := by
    rw [hentry, Rotation.turn_of_ne hi hi']
    rfl
  refine ⟨?_, ?_, ?_, ?_, ?_⟩
  · intro i k hk hik
    rcases Nat.lt_or_ge k.val j with hkj | hkj
    · rw [hstays (.inl hkj)]
      exact hR.triangular i k hkj hik
    -- column `j` itself: the rotation clears the one entry it has below the diagonal
    · obtain rfl : k = here := Fin.ext (by omega)
      by_cases hib : i = below
      · rw [hentry, Rotation.turn_apply, if_pos hib]
        exact hg.second
      · have hne : i.val ≠ below.val := fun he => hib (Fin.ext he)
        rw [hother (Fin.ne_of_gt hik) hib]
        exact hR.hessenberg i k (by omega)
  · intro i k hik
    rcases Nat.lt_or_ge k.val j with hkj | hkj
    · rw [hstays (.inl hkj)]
      exact hR.hessenberg i k hik
    · rw [hother (Fin.ne_of_val_ne (by omega)) (Fin.ne_of_val_ne (by omega))]
      exact hR.hessenberg i k hik
  · intro i k hk
    rw [hstays (.inr hk)]
    exact hR.empty i k hk
  · intro k hk hkc
    rcases Nat.lt_or_ge k.val j with hkj | hkj
    · rw [hstays (.inl hkj)]
      exact hR.diagonal k hkj hkc
    · obtain rfl : k = here := Fin.ext (by omega)
      -- the new diagonal entry is the length of the pair, so no shorter than the entry below
      have hlong : Scalar.epsilon < |R.entry below k| := hR.below _ _ (by omega) hkj hkc
      have hlength : |R.entry below k| ≤ |g.length| :=
        sq_le_sq.mp (by nlinarith [hg.length, mul_self_nonneg (R.entry k k)])
      have hnew : R'.entry k k = g.length := by
        rw [hentry, Rotation.turn_apply, if_neg (Fin.ne_of_val_ne (by omega)), if_pos rfl]
        exact hg.first
      rw [hnew]
      exact lt_of_lt_of_le hlong hlength
  · intro i k hik hk hkc
    rw [hother (Fin.ne_of_val_ne (by omega)) (Fin.ne_of_val_ne (by omega))]
    exact hR.below i k hik (by omega) hkc

/-- Clearing an entry turns every column of the triangle, also those that it does not touch. -/
theorem columnAt_clearBelow {J : Mat ℝ n n} (hR : Hessenberg count j R) (hhere : here.val = j)
    (hbelow : below.val = j + 1) (hg : g.Clears (R.entry here here) (R.entry below here))
    (hs : clearBelow count (R, J) j =
      (g.onRows ((R.set below here 0).set here here g.length) here below
          fun k => decide (j < k.val ∧ k.val < count),
        g.onColumns J here below fun _ => true))
    (k : Fin n) : (clearBelow count (R, J) j).1.columnAt k = g.turn here below (R.columnAt k) := by
  have hne : here ≠ below := Fin.ne_of_val_ne (by omega)
  -- the rotation of rows goes over the columns behind `j`; column `j` is written by hand, and the
  -- others are zero in both rows
  by_cases hk : j < k.val ∧ k.val < count
  · have hkh : here ≠ k := Fin.ne_of_val_ne (by omega)
    funext r
    rw [hs]
    simp only [Mat.columnAt, Rotation.entry_onRows, Mat.entry_set, Rotation.turn_apply,
      decide_eq_true_eq, if_pos hk, hkh, and_false, if_false, Rotation.second_eq hg.toIsTurn,
      Rotation.first_eq]
  · have hset (r : Fin n) : (clearBelow count (R, J) j).1.entry r k =
        ((R.set below here 0).set here here g.length).entry r k := by
      rw [hs]
      simp only [Rotation.entry_onRows, decide_eq_true_eq, if_neg hk]
    by_cases hkh : k = here
    · subst hkh
      funext r
      simp only [Mat.columnAt, hset, Mat.entry_set, Rotation.turn_apply, and_true]
      by_cases hrb : r = below
      · rw [if_neg (hrb ▸ hne), if_pos hrb.symm, if_pos hrb, hg.second]
      · by_cases hrh : r = k
        · rw [if_pos hrh.symm, if_neg hrb, if_pos hrh, hg.first]
        · rw [if_neg (Ne.symm hrh), if_neg (Ne.symm hrb), if_neg hrb, if_neg hrh]
    · have hkj : k.val < j ∨ count ≤ k.val := by
        have hval : k.val ≠ here.val := fun he => hkh (Fin.ext he)
        omega
      rw [hR.turn_columnAt hhere hbelow hkj]
      funext r
      simp only [Mat.columnAt, hset, Mat.entry_set, Ne.symm hkh, and_false, if_false]

/-- Clearing column `j`: the boundary moves on, everything turns alike, and the rotation is not
skipped. -/
theorem Hessenberg.clearBelow (J : Mat ℝ n n) (hR : Hessenberg count j R) (hj : j < count)
    (hcount : count < n) :
    Hessenberg count (j + 1) (Workspace.clearBelow count (R, J) j).1 ∧
      (∃ T, KeepsBelow T j ∧
        (∀ k, (Workspace.clearBelow count (R, J) j).1.columnAt k = T (R.columnAt k)) ∧
        ∀ r, (Workspace.clearBelow count (R, J) j).2.entry r = T (J.entry r)) ∧
      ∀ ab ∈ (if h : j < n then pairAt (fun i => R.entry i ⟨j, h⟩) j else []),
        ¬ IsSkipped ab := by
  have hlt : j + 1 < n := by omega
  obtain ⟨here, hhere⟩ : ∃ here : Fin n, here = ⟨j, Nat.lt_of_succ_lt hlt⟩ := ⟨_, rfl⟩
  obtain ⟨below, hbelow⟩ : ∃ below : Fin n, below = ⟨j + 1, hlt⟩ := ⟨_, rfl⟩
  have hhereVal : here.val = j := by rw [hhere]
  have hbelowVal : below.val = j + 1 := by rw [hbelow]
  have hkept : ¬ IsSkipped (R.entry here here, R.entry below here) :=
    not_isSkipped_of_lt_abs (hR.below _ _ (by omega) (by omega) (by omega))
  cases hpair : Rotation.ofPair? (R.entry here here) (R.entry below here) Scalar.epsilon with
  | none => exact absurd (Rotation.ofPair?_eq_none.mp hpair) hkept
  | some g =>
    have hg := Rotation.clears_ofPair? Scalar.epsilon_pos hpair
    have hs : Workspace.clearBelow count (R, J) j =
        (g.onRows ((R.set below here 0).set here here g.length) here below
            fun k => decide (j < k.val ∧ k.val < count),
          g.onColumns J here below fun _ => true) := by
      simp only [Workspace.clearBelow, neighbours?_of_lt hlt, ← hhere, ← hbelow, hpair]
    have hcols := columnAt_clearBelow hR hhereVal hbelowVal hg hs
    refine ⟨hR.turn hhereVal hbelowVal hg hcols, ⟨g.turn here below, ?_, hcols, ?_⟩, ?_⟩
    · have hturn := Rotation.keepsBelow_turn (g := g) hg.toIsTurn
        (show here < below from Fin.lt_def.mpr (by omega))
      exact hhereVal ▸ hturn
    · intro r
      rw [hs]
      exact Rotation.entry_onColumns_true hg.toIsTurn _ _ _ _
    · intro ab hab
      rw [dif_pos (Nat.lt_of_succ_lt hlt)] at hab
      simp only [pairAt, neighbours?_of_lt hlt, ← hhere, ← hbelow, List.mem_singleton] at hab
      rw [hab]
      exact hkept

end ClearBelow

/-- Clearing all columns from `j` on. -/
theorem Hessenberg.retriangulate {count : Nat} (hcount : count < n) (remaining : Nat) {j : Nat}
    (hj : j + remaining = count) {R : Mat ℝ n n} (J : Mat ℝ n n) (hR : Hessenberg count j R) :
    Hessenberg count count (Workspace.retriangulate count remaining j (R, J)).1 ∧
      (∃ T, KeepsBelow T j ∧
        (∀ k, (Workspace.retriangulate count remaining j (R, J)).1.columnAt k =
          T (R.columnAt k)) ∧
        ∀ r, (Workspace.retriangulate count remaining j (R, J)).2.entry r = T (J.entry r)) ∧
      ∀ ab ∈ retriangulatedPairs count remaining j (R, J), ¬ IsSkipped ab := by
  -- on the number of columns that are left to clear
  induction remaining generalizing j R J with
  | zero =>
    obtain rfl : j = count := hj
    exact ⟨hR, ⟨LinearMap.id, .id, fun _ => rfl, fun _ => rfl⟩, by simp [retriangulatedPairs]⟩
  | succ remaining ih =>
    obtain ⟨hnext, ⟨T, hT, hcols, hrows⟩, hpairs⟩ := hR.clearBelow J (by omega) hcount
    obtain ⟨hlast, ⟨S, hS, hcols', hrows'⟩, hpairs'⟩ := ih (by omega) _ hnext
    refine ⟨hlast, ⟨S ∘ₗ T, (hS.mono (Nat.le_succ j)).comp hT, ?_, ?_⟩, ?_⟩
    · intro k
      rw [LinearMap.comp_apply, ← hcols]
      exact hcols' k
    · intro r
      rw [LinearMap.comp_apply, ← hrows]
      exact hrows' r
    · intro ab hab
      rcases List.mem_append.mp hab with h | h
      · exact hpairs ab h
      · exact hpairs' ab h

/-- Taking out the last column turns nothing. -/
theorem basis_eraseAt_of_last {α : Type} [Scalar α] {ws : Workspace α n slots} {p : Nat}
    (hp : p + 1 = ws.count) : (ws.eraseAt p).basis = ws.basis := by
  have hrest : ws.count - 1 - p = 0 := by omega
  simp only [eraseAt, hrest, retriangulate]

end Workspace

end ActiveSet

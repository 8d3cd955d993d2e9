import ActiveSet.Proofs.Arrays
import ActiveSet.Proofs.Rotation
/-
  A rotation is a reflection of two columns

  The coefficients that are made for a pair take it to its length, with the
  sign of the first component (`length_neg_iff`), and form the matrix
  `[[c, s], [s, -c]]` with `c² + s² = 1`. On two columns of a matrix this is
  one orthogonal map of the pairs of entries, row by row, so it does not matter
  in which rows it acts: it keeps the products of the rows that turn, and it
  is its own inverse (`reflects_onColumns`).

  An array with two axes is rotated as the matrix is that it holds
  (`rotateColumns_ofMat`), where columns may be counted from the end and the
  rows come as a range.
-/

open Matrix

namespace ActiveSet

namespace Rotation

variable {m n : Nat} {g : Rotation ℝ} {a b ε : ℝ}

/-! ## The coefficients -/

/-- The pair keeps its side: what its first component becomes has the sign that it had. -/
theorem length_neg_iff (hε : 0 < ε) (h : ofPair? a b ε = some g) : g.length < 0 ↔ a < 0 := by
  obtain ⟨hlong, hsides⟩ := ofPair?_cases h
  have hpos : 0 < Scalar.hypot a b := lt_of_lt_of_le hε hlong
  have hside : a / Scalar.hypot a b < 0 ↔ a < 0 := by rw [div_lt_iff₀ hpos, zero_mul]
  obtain ⟨hneg, rfl⟩ | ⟨hnonneg, rfl⟩ := hsides
  · exact iff_of_true (neg_lt_zero.mpr hpos) (hside.mp hneg)
  · exact iff_of_false hpos.le.not_gt fun ha => hnonneg.not_gt (hside.mpr ha)

/-! ## Two columns -/

/-- Whether one matrix is another with the columns `i` and `j` reflected in some of its rows. -/
structure Reflects (g : Rotation ℝ) (A : Mat ℝ m n) (i j : Fin n) (rows : Fin m → Bool)
    (B : Mat ℝ m n) : Prop where
  first : ∀ r, rows r = true →
    B.entry r i = g.cosine * A.entry r i + g.sine * A.entry r j
  second : ∀ r, rows r = true →
    B.entry r j = g.sine * A.entry r i - g.cosine * A.entry r j
  otherRow : ∀ r k, rows r = false → B.entry r k = A.entry r k
  otherColumn : ∀ r k, k ≠ i → k ≠ j → B.entry r k = A.entry r k
  products : ∀ r r', rows r = true → rows r' = true →
    B.entry r i * B.entry r' i + B.entry r j * B.entry r' j =
      A.entry r i * A.entry r' i + A.entry r j * A.entry r' j
  gram : (∀ r, rows r = true) → B.toMatrix * B.toMatrixᵀ = A.toMatrix * A.toMatrixᵀ
  again : g.onColumns B i j rows = A

theorem reflects_onColumns (hg : g.IsTurn) (A : Mat ℝ m n) {i j : Fin n} (hij : i ≠ j)
    (rows : Fin m → Bool) : g.Reflects A i j rows (g.onColumns A i j rows) := by
  have hturned {r : Fin m} (hr : rows r = true) :
      (g.onColumns A i j rows).entry r = g.turn i j (A.entry r) := by
    rw [entry_onColumns_eq hg, if_pos hr]
  have hkept {r : Fin m} (hr : rows r = false) :
      (g.onColumns A i j rows).entry r = A.entry r := by
    rw [entry_onColumns_eq hg, if_neg (by simp [hr])]
  refine ⟨?_, ?_, ?_, ?_, ?_, ?_, ?_⟩
  · intro r hr
    rw [hturned hr, turn_apply, if_neg hij, if_pos rfl]
  · intro r hr
    rw [hturned hr, turn_apply, if_pos rfl]
  · intro r k hr
    rw [hkept hr]
  · intro r k hi hj
    cases hr : rows r with
    | true => rw [hturned hr, turn_of_ne hi hj]
    | false => rw [hkept hr]
  · intro r r' hr hr'
    rw [hturned hr, hturned hr', turn_pair hg hij]
  · intro hall
    ext r r'
    show (g.onColumns A i j rows).entry r ⬝ᵥ (g.onColumns A i j rows).entry r' =
      A.entry r ⬝ᵥ A.entry r'
    rw [hturned (hall r), hturned (hall r'), turn_dot hg hij]
  · refine Mat.ext_entry fun r k => congrFun ?_ k
    rw [entry_onColumns_eq hg]
    cases hr : rows r with
    | true => rw [if_pos rfl, hturned hr, turn_turn hg hij]
    | false => rw [if_neg Bool.false_ne_true, hkept hr]

end Rotation

/-! ## Arrays -/

namespace Tensor

variable {α : Type} [Zero α] {m n k : Nat}

/-- What an array holds does not depend on how its number of columns is written. -/
theorem entry_matrix_ofMat (A : Mat α m n) (h : k = n) (r : Fin m) (c : Fin k) :
    ((ofMat A).matrix m k).entry r c = A.entry r (Fin.cast h c) := by
  subst h
  rw [matrix_ofMat]
  rfl

omit [Zero α] in
theorem reshape_ofMat {A : Mat α m k} {B : Mat α m n} (h : k = n)
    (hAB : ∀ r c, A.entry r c = B.entry r (Fin.cast h c)) :
    (ofMat A).reshape [m, n] = .ok (ofMat B) := by
  subst h
  obtain rfl : A = B := Mat.ext_entry hAB
  exact dif_pos (ofMat A).length_entries

end Tensor

namespace Dense

/-- The rows of a range; bounds below zero count from the end. -/
def rowRange (m : Nat) (start stop : Option Int) (r : Fin m) : Bool :=
  decide ((start.map (cutOff m)).getD 0 ≤ r.val ∧ r.val < (stop.map (cutOff m)).getD m)

/-- A pair that is no shorter than a positive threshold has a length to divide by. -/
theorem rotation?_eq {a b ε : ℝ} (hε : 0 < ε) (hlong : ε ≤ Scalar.hypot a b) :
    rotation? a b ε = .ok (Rotation.ofPair? a b ε) := by
  have hzero : ¬ Scalar.isZero (Scalar.hypot a b) = true := by
    rw [Scalar.isZero_real]
    exact (lt_of_lt_of_le hε hlong).ne'
  have hshort : ¬ Scalar.lt (Scalar.hypot a b) ε = true := by
    rw [Scalar.lt_real, decide_eq_true_eq]
    exact not_lt.mpr hlong
  simp only [rotation?, if_neg hshort, if_neg hzero]

section Single

variable {n depth : Nat}

/-- Where a place holds one entry, its column is the column of that entry. -/
theorem cast_innerColumn (hdepth : depth = 1) (h : n * depth = n) (k : Fin n) (l : Fin depth) :
    Fin.cast h (innerColumn k l) = k := by
  subst hdepth
  refine Fin.ext ?_
  show k.val * 1 + l.val = k.val
  omega

theorem eq_innerColumn_iff (hdepth : depth = 1) (h : n * depth = n) (k : Fin n) (l : Fin depth)
    (c : Fin (n * depth)) : c = innerColumn k l ↔ Fin.cast h c = k := by
  rw [← (Fin.cast_injective h).eq_iff, cast_innerColumn hdepth]

theorem foldl_single {β : Type} (hdepth : depth = 1) (f : β → Fin depth → β) (x : β) :
    Fin.foldl depth f x = f x ⟨0, hdepth.symm ▸ Nat.one_pos⟩ := by
  subst hdepth
  rw [Fin.foldl_succ, Fin.foldl_zero]
  rfl

end Single

/-- An array with two axes is rotated as its matrix. -/
theorem rotateColumns_ofMat {m n : Nat} {g : Rotation ℝ} (hcosine : 0 ≤ g.cosine) (A : Mat ℝ m n)
    {i j : Fin n} {first second : Int} (hfirst : column? n first = some i)
    (hsecond : column? n second = some j) (start stop : Option Int) :
    rotateColumns (Tensor.ofMat A) first second g.cosine g.sine start stop =
      .ok (Tensor.ofMat (g.onColumns A i j (rowRange m start stop))) := by
  have hdivisor : ¬ Scalar.isZero (1 + g.cosine) = true := by
    rw [Scalar.isZero_real]
    exact (add_pos_of_pos_of_nonneg one_pos hcosine).ne'
  have hshape : (Tensor.ofMat A).shape = [m, n] := rfl
  have hdepth : entryCount [] = 1 := rfl
  have hwidth : n * entryCount [] = n := Nat.mul_one n
  unfold rotateColumns
  simp only [hshape, hfirst, hsecond, if_neg hdivisor, foldl_single hdepth]
  refine Tensor.reshape_ofMat hwidth fun r c => ?_
  simp only [Rotation.entry_onColumns, eq_innerColumn_iff hdepth hwidth,
    Tensor.entry_matrix_ofMat A hwidth, cast_innerColumn hdepth hwidth]
  rfl

end Dense

namespace Rotation

/-- A pair that is no shorter than a positive threshold has coefficients that take it to its
length on its side, and with them any two columns of any matrix are reflected, in whatever rows a
slice selects. -/
theorem reflects_of_long {a b ε : ℝ} (hε : 0 < ε) (hlong : ε ≤ Scalar.hypot a b) :
    ∃ g, ofPair? a b ε = some g ∧ Dense.rotation? a b ε = .ok (some g) ∧
      0 ≤ g.cosine ∧ g.cosine ^ 2 + g.sine ^ 2 = 1 ∧
      g.cosine * a + g.sine * b = g.length ∧ g.sine * a - g.cosine * b = 0 ∧
      |g.length| = Scalar.hypot a b ∧ (g.length < 0 ↔ a < 0) ∧
      ∀ (m n : Nat) (A : Mat ℝ m n) (i j : Fin n), i ≠ j →
        (∀ rows, g.Reflects A i j rows (g.onColumns A i j rows)) ∧
        ∀ first second start stop, Dense.column? n first = some i →
          Dense.column? n second = some j →
          Dense.rotateColumns (Tensor.ofMat A) first second g.cosine g.sine start stop =
            .ok (Tensor.ofMat (g.onColumns A i j (Dense.rowRange m start stop))) := by
  obtain ⟨g, hg⟩ := exists_ofPair? hlong
  have hclears := clears_ofPair? hε hg
  refine ⟨g, hg, by rw [Dense.rotation?_eq hε hlong, hg], hclears.cosine_nonneg, ?_,
    hclears.first, hclears.second, hclears.abs_length, length_neg_iff hε hg, ?_⟩
  · rw [sq, sq]
    exact hclears.unit
  · intro m n A i j hij
    exact ⟨reflects_onColumns hclears.toIsTurn A hij, fun first second start stop hi hj =>
      Dense.rotateColumns_ofMat hclears.cosine_nonneg A hi hj start stop⟩

end Rotation

/-- Two columns with three rows. -/
noncomputable def Mat.tall : Mat ℝ 3 2 :=
  Mat.ofFn fun r k => ((5 * (r.val + k.val + 1) : Nat) : ℝ)

/-- The same columns with the last two rows reflected by `3/5` and `-4/5`. -/
noncomputable def Mat.tallTurned : Mat ℝ 3 2 :=
  Mat.ofFn fun r k =>
    if r = 0 then Mat.tall.entry r k
    else if k = 0 then -((r.val + 5 : Nat) : ℝ)
    else -((7 * r.val + 10 : Nat) : ℝ)

namespace Rotation

theorem Reflects.eq_tallTurned {g : Rotation ℝ} {rows : Fin 3 → Bool} {B : Mat ℝ 3 2}
    (h : g.Reflects .tall 0 1 rows B) (hcosine : g.cosine = 3 / 5) (hsine : g.sine = -4 / 5)
    (hrows : ∀ r, rows r = decide (r ≠ 0)) : B = .tallTurned := by
  refine Mat.ext_entry fun r k => ?_
  rw [Mat.tallTurned, Mat.entry_ofFn]
  by_cases hr : r = 0
  · rw [if_pos hr]
    exact h.otherRow r k (by rw [hrows]; exact decide_eq_false (not_not.mpr hr))
  · have hselected : rows r = true := by rw [hrows]; exact decide_eq_true hr
    rw [if_neg hr]
    fin_cases k
    · refine (h.first r hselected).trans ?_
      rw [hcosine, hsine, Mat.tall, Mat.entry_ofFn, Mat.entry_ofFn]
      push_cast
      norm_num
      ring
    · refine (h.second r hselected).trans ?_
      rw [hcosine, hsine, Mat.tall, Mat.entry_ofFn, Mat.entry_ofFn]
      push_cast
      norm_num
      ring

/-- A pair that points to the left: its coefficients, and what they make of the last two rows of
two columns, forth and back. -/
theorem reflects_of_long_left : (0 : ℝ) < 1 ∧ (1 : ℝ) ≤ Scalar.hypot (-3) 4 ∧
    ∃ g : Rotation ℝ, Dense.rotation? (-3) 4 1 = .ok (some g) ∧
      g.cosine = 3 / 5 ∧ g.sine = -4 / 5 ∧ g.length = -5 ∧
      Dense.rotateColumns (Tensor.ofMat .tall) 0 (-1) g.cosine g.sine (some (-2)) none =
        .ok (Tensor.ofMat .tallTurned) ∧
      Dense.rotateColumns (Tensor.ofMat .tallTurned) 0 (-1) g.cosine g.sine (some (-2)) none =
        .ok (Tensor.ofMat .tall) := by
  have hhypot : Scalar.hypot (-3 : ℝ) 4 = 5 := by
    rw [Scalar.hypot_real, show (-3 * -3 + 4 * 4 : ℝ) = 5 * 5 by norm_num]
    exact Real.sqrt_mul_self (by norm_num)
  have hlong : (1 : ℝ) ≤ Scalar.hypot (-3) 4 := by
    rw [hhypot]
    norm_num
  obtain ⟨g, -, hrotation, -, -, hfirst, hsecond, hlength, hside, hreflects⟩ :=
    reflects_of_long one_pos hlong
  have hleft : g.length = -5 := by
    have hneg : g.length < 0 := hside.mpr (by norm_num)
    rw [hhypot, abs_of_neg hneg] at hlength
    linarith
  rw [hleft] at hfirst
  have hcosine : g.cosine = 3 / 5 := by linarith
  have hsine : g.sine = -4 / 5 := by linarith
  obtain ⟨hcolumns, harray⟩ := hreflects 3 2 .tall 0 1 (by decide)
  obtain ⟨-, harray'⟩ := hreflects 3 2 .tallTurned 0 1 (by decide)
  have hturns := hcolumns (Dense.rowRange 3 (some (-2)) none)
  have hturned := hturns.eq_tallTurned hcosine hsine (by decide)
  have hagain := hturns.again
  rw [hturned] at hagain
  refine ⟨one_pos, hlong, g, hrotation, hcosine, hsine, hleft, ?_, ?_⟩
  · rw [harray 0 (-1) (some (-2)) none rfl rfl, hturned]
  · rw [harray' 0 (-1) (some (-2)) none rfl rfl, hagain]

end Rotation

end ActiveSet

import ActiveSet.Proofs.Direction
import ActiveSet.Proofs.Extended
import ActiveSet.Proofs.Gauge
/-
  Computations that stay with the real numbers

  Sums and products of real numbers are real; quotients and roots are, where
  a test came before. A factor has positive pivots, since the factorization
  stops at any other. A rotation divides by a length above the threshold, and
  by `1 + c` with a `c` that is not negative. What moves a point is a step
  that was found finite. The step onto an equality is the one that is tested
  before it is formed: its divisor is not zero where the point can move, for
  the same reason as over the reals (`curvature_ne_zero`).

  So the basis, the triangle, the directions and the saved copies of a
  workspace stay real (`Workspace.IsReal`) as long as the normals are. The dual
  values play no part in this, nor do the bounds of the inequalities.
-/

open Matrix

namespace ActiveSet

variable {n e m slots : Nat}

namespace Extended

/-- Whether the value is a real number. -/
def IsReal (x : Extended) : Prop := ∃ r, x = real r

variable {x y : Extended}

theorem isReal_iff : x.IsReal ↔ Scalar.isFinite x = true := by
  cases x <;> simp [IsReal, Scalar.isFinite]

namespace IsReal

theorem zero : IsReal 0 := ⟨0, rfl⟩

theorem one : IsReal 1 := ⟨1, rfl⟩

theorem neg (hx : x.IsReal) : IsReal (-x) := by
  obtain ⟨r, rfl⟩ := hx
  exact ⟨_, real_neg r⟩

theorem add (hx : x.IsReal) (hy : y.IsReal) : IsReal (x + y) := by
  obtain ⟨r, rfl⟩ := hx
  obtain ⟨s, rfl⟩ := hy
  exact ⟨_, real_add r s⟩

theorem sub (hx : x.IsReal) (hy : y.IsReal) : IsReal (x - y) := by
  obtain ⟨r, rfl⟩ := hx
  obtain ⟨s, rfl⟩ := hy
  exact ⟨_, real_sub r s⟩

theorem mul (hx : x.IsReal) (hy : y.IsReal) : IsReal (x * y) := by
  obtain ⟨r, rfl⟩ := hx
  obtain ⟨s, rfl⟩ := hy
  exact ⟨_, real_mul r s⟩

theorem div (hx : x.IsReal) (hy : y.IsReal) (hne : y ≠ 0) : IsReal (x / y) := by
  obtain ⟨r, rfl⟩ := hx
  obtain ⟨s, rfl⟩ := hy
  exact ⟨_, real_div r fun hs => hne (congrArg real hs)⟩

theorem byReciprocal (hx : x.IsReal) (hy : y.IsReal) (hne : y ≠ 0) :
    IsReal (Triangular.byReciprocal x y) := hx.mul (one.div hy hne)

theorem abs (hx : x.IsReal) : IsReal (Scalar.abs x) := by
  obtain ⟨r, rfl⟩ := hx
  exact ⟨_, abs_real r⟩

theorem maximum (hx : x.IsReal) (hy : y.IsReal) : IsReal (Scalar.maximum x y) := by
  obtain ⟨r, rfl⟩ := hx
  obtain ⟨s, rfl⟩ := hy
  exact ⟨_, maximum_real r s⟩

end IsReal

theorem isReal_foldl {next : Extended → Fin n → Extended}
    (h : ∀ s i, s.IsReal → (next s i).IsReal) {a : Extended} (ha : a.IsReal) :
    (Fin.foldl n next a).IsReal := by
  induction n generalizing a with
  | zero => simpa using ha
  | succ n ih =>
    rw [Fin.foldl_succ]
    exact ih (fun s i => h s i.succ) (h a 0 ha)

theorem isReal_foldr {next : Fin n → Extended → Extended}
    (h : ∀ i s, s.IsReal → (next i s).IsReal) {a : Extended} (ha : a.IsReal) :
    (Fin.foldr n next a).IsReal := by
  induction n with
  | zero => simpa using ha
  | succ n ih =>
    rw [Fin.foldr_succ]
    exact h 0 _ (ih fun i s => h i.succ s)

end Extended

open Extended

/-! ## Vectors and matrices -/

/-- Whether all entries are real numbers. -/
def Vec.IsReal (v : Vector Extended n) : Prop := ∀ i, (v.get i).IsReal

namespace Vec.IsReal

variable {u v : Vector Extended n}

theorem unit (k : Fin n) : Vec.IsReal (Vec.unit k) := by
  intro i
  rw [Vec.unit, get_ofFn]
  split
  · exact .one
  · exact .zero

theorem dot (hu : Vec.IsReal u) (hv : Vec.IsReal v) : (Vec.dot u v).IsReal :=
  isReal_foldl (fun _ i hs => hs.add ((hu i).mul (hv i))) .zero

theorem add (hu : Vec.IsReal u) (hv : Vec.IsReal v) : Vec.IsReal (Vec.add u v) := by
  intro i
  rw [Vec.add, get_ofFn]
  exact (hu i).add (hv i)

theorem scale {s : Extended} (hs : s.IsReal) (hv : Vec.IsReal v) :
    Vec.IsReal (Vec.scale s v) := by
  intro i
  rw [Vec.scale, Vector.get_map]
  exact hs.mul (hv i)

theorem neg (hv : Vec.IsReal v) : Vec.IsReal (Vec.neg v) := by
  intro i
  rw [Vec.neg, Vector.get_map]
  exact (hv i).neg

theorem set (hv : Vec.IsReal v) (k : Fin n) {x : Extended} (hx : x.IsReal) :
    Vec.IsReal (Vec.set v k x) := by
  intro i
  rw [get_set]
  split
  · exact hx
  · exact hv i

theorem cons {x : Extended} (hx : x.IsReal) (hv : Vec.IsReal v) :
    Vec.IsReal (Vec.cons x v) := by
  intro i
  refine Fin.cases ?_ (fun k => ?_) i
  · rw [cons_zero]
    exact hx
  · rw [cons_succ]
    exact hv k

/-- The greatest absolute value of real entries is real. -/
theorem maxAbs (hv : Vec.IsReal v) : (Vec.maxAbs v).IsReal := by
  have hfold (l : List Extended) (hl : ∀ x ∈ l, x.IsReal) (a : Extended) (ha : a.IsReal) :
      (l.foldl (fun s x => Scalar.maximum s (Scalar.abs x)) a).IsReal := by
    induction l generalizing a with
    | nil => exact ha
    | cons x l ih =>
      exact ih (fun y hy => hl y (List.mem_cons_of_mem _ hy)) _
        (ha.maximum (hl x List.mem_cons_self).abs)
  rw [Vec.maxAbs, ← Vector.foldl_toList]
  refine hfold _ (fun x hx => ?_) 0 .zero
  rw [toList_eq_ofFn, List.mem_ofFn] at hx
  obtain ⟨i, rfl⟩ := hx
  exact hv i

end Vec.IsReal

theorem Constraint.isReal_slack {c : Constraint Extended n} {x : Vector Extended n}
    (hnormal : Vec.IsReal c.normal) (hbound : c.bound.IsReal) (hx : Vec.IsReal x) :
    (c.slack x).IsReal := (hnormal.dot hx).sub hbound

/-- Whether all entries are real numbers. -/
def Mat.IsReal {k : Nat} (A : Mat Extended k n) : Prop := ∀ i j, (A.entry i j).IsReal

namespace Mat.IsReal

variable {k : Nat} {A : Mat Extended k n}

theorem zero : (Mat.zero k n : Mat Extended k n).IsReal := by
  intro i j
  rw [Mat.zero, entry_ofFn]
  exact .zero

theorem extend (hA : A.IsReal) (i j : Nat) : (A.extend i j).IsReal := by
  unfold Mat.extend
  split
  · exact hA _ _
  · exact .zero

theorem transpose (hA : A.IsReal) : A.transpose.IsReal := by
  intro i j
  rw [Mat.transpose, entry_ofFn]
  exact hA j i

theorem set (hA : A.IsReal) (i : Fin k) (j : Fin n) {x : Extended} (hx : x.IsReal) :
    (A.set i j x).IsReal := by
  intro r l
  rw [entry_set]
  split
  · exact hx
  · exact hA r l

theorem mulVec (hA : A.IsReal) {v : Vector Extended n} (hv : Vec.IsReal v) :
    Vec.IsReal (A.mulVec v) := by
  intro i
  rw [Mat.mulVec, Vec.get_ofFn]
  exact Vec.IsReal.dot (hA i) hv

theorem tail {A : Mat Extended (k + 1) (n + 1)} (hA : A.IsReal) : A.tail.IsReal := by
  intro i j
  rw [Mat.tail, entry_ofFn]
  exact hA _ _

end Mat.IsReal

/-! ## Triangular systems and the factor -/

namespace Triangular

variable {L U : Mat Extended n n}

/-- Whether the entries are real and those on the diagonal are not zero. -/
structure Regular (L : Mat Extended n n) : Prop where
  isReal : L.IsReal
  diagonal : ∀ i, L.entry i i ≠ 0

theorem Regular.tail {L : Mat Extended (n + 1) (n + 1)} (h : Regular L) : Regular L.tail where
  isReal := h.isReal.tail
  diagonal i := by
    rw [Mat.tail, Mat.entry_ofFn]
    exact h.diagonal i.succ

theorem Regular.transpose (h : Regular L) : Regular L.transpose where
  isReal := h.isReal.transpose
  diagonal i := by
    rw [Mat.transpose, Mat.entry_ofFn]
    exact h.diagonal i

theorem Regular.hasZeroPivot (h : Regular L) : hasZeroPivot L = false := by
  refine Bool.eq_false_iff.mpr fun hzero => ?_
  obtain ⟨i, -, hi⟩ := List.any_eq_true.mp hzero
  refine h.diagonal i ?_
  obtain ⟨r, hr⟩ := h.isReal i i
  rw [hr, Scalar.isZero, real_zero, Extended.le_real, Extended.le_real, Bool.and_eq_true,
    decide_eq_true_eq, decide_eq_true_eq] at hi
  rw [hr, le_antisymm hi.1 hi.2, real_zero]

theorem Regular.isReal_solveLower (h : Regular L) {b : Vector Extended n} (hb : Vec.IsReal b) :
    Vec.IsReal (solveLower byReciprocal L b) := by
  induction n with
  | zero => exact hb
  | succ n ih =>
    have hfirst : (byReciprocal (b.get 0) (L.entry 0 0)).IsReal :=
      (hb 0).byReciprocal (h.isReal 0 0) (h.diagonal 0)
    refine Vec.IsReal.cons hfirst (ih h.tail fun i => ?_)
    rw [Vec.get_ofFn]
    exact (hb i.succ).sub ((h.isReal i.succ 0).mul hfirst)

theorem Regular.isReal_solveUpper (h : Regular U) {b : Vector Extended n} (hb : Vec.IsReal b) :
    Vec.IsReal (solveUpper byReciprocal U b) := by
  induction n with
  | zero => exact hb
  | succ n ih =>
    have hrest : Vec.IsReal (solveUpper byReciprocal U.tail
        (Vector.ofFn fun i : Fin n => b.get i.succ)) := by
      refine ih h.tail fun i => ?_
      rw [Vec.get_ofFn]
      exact hb i.succ
    have hknown : (Fin.foldr n (fun j s => s - U.entry 0 j.succ *
        (solveUpper byReciprocal U.tail (Vector.ofFn fun i => b.get i.succ)).get j)
        (b.get 0)).IsReal :=
      isReal_foldr (fun j _ hs => hs.sub ((h.isReal 0 j.succ).mul (hrest j))) (hb 0)
    exact Vec.IsReal.cons (hknown.byReciprocal (h.isReal 0 0) (h.diagonal 0)) hrest

theorem Regular.isReal_inverseLower (h : Regular L) : (inverseLower L).IsReal := by
  intro i j
  rw [inverseLower, Mat.ofColumns, Mat.entry_ofFn, Vec.get_ofFn]
  exact h.isReal_solveLower (.unit j) i

end Triangular

namespace Cholesky

theorem isReal_complement {A : Mat Extended (n + 1) (n + 1)} {column : Vector Extended n}
    (hA : A.IsReal) (hcolumn : Vec.IsReal column) : (complement A column).IsReal := by
  intro i j
  rw [complement, Mat.entry_ofFn]
  exact (hA i.succ j.succ).sub ((hcolumn i).mul (hcolumn j))

theorem regular_border {corner : Extended} {column : Vector Extended n} {rest : Mat Extended n n}
    (hcorner : corner.IsReal) (hne : corner ≠ 0) (hcolumn : Vec.IsReal column)
    (hrest : Triangular.Regular rest) : Triangular.Regular (border corner column rest) where
  isReal i j := by
    rw [border, Mat.entry_ofFn]
    cases i using Fin.cases with
    | zero =>
      cases j using Fin.cases with
      | zero => exact hcorner
      | succ _ => exact .zero
    | succ i =>
      cases j using Fin.cases with
      | zero => exact hcolumn i
      | succ j => exact hrest.isReal i j
  diagonal i := by
    rw [border, Mat.entry_ofFn]
    cases i using Fin.cases with
    | zero => exact hne
    | succ i => exact hrest.diagonal i

/-- A factor of a real matrix is real, and its pivots are not zero. -/
theorem regular_of_factor? {A L : Mat Extended n n} (hA : A.IsReal) (h : factor? A = some L) :
    Triangular.Regular L := by
  induction n with
  | zero => exact ⟨fun i => i.elim0, fun i => i.elim0⟩
  | succ n ih =>
    rw [factor?_step] at h
    dsimp only at h
    split at h
    · cases h
    · next hpivot =>
      obtain ⟨rest, hrest, rfl⟩ := Option.map_eq_some_iff.mp h
      obtain ⟨a, ha⟩ := hA 0 0
      have hpos : 0 < a := by
        rw [ha, real_zero, Extended.le_real, decide_eq_true_eq] at hpivot
        exact not_le.mp hpivot
      have hcorner : Scalar.sqrt (A.entry 0 0) = real (Real.sqrt a) := by
        rw [ha, sqrt_real hpos.le]
      have hne : Scalar.sqrt (A.entry 0 0) ≠ 0 := by
        rw [hcorner]
        exact fun hzero => (Real.sqrt_pos.mpr hpos).ne' (Extended.real.inj hzero)
      have hcolumn : Vec.IsReal (Vector.ofFn fun i : Fin n =>
          Triangular.byReciprocal (A.entry i.succ 0) (Scalar.sqrt (A.entry 0 0))) := by
        intro i
        rw [Vec.get_ofFn]
        exact (hA i.succ 0).byReciprocal ⟨_, hcorner⟩ hne
      exact regular_border ⟨_, hcorner⟩ hne hcolumn
        (ih (isReal_complement hA hcolumn) hrest)

theorem factor_eq_ok_of_isReal {A L : Mat Extended n n} (hA : A.IsReal)
    (h : factor? A = some L) : Dense.factor A = .ok L := by
  have hfinite : Dense.allFinite A = true := by
    simp only [Dense.allFinite, Vector.all_eq_true]
    exact fun i hi j hj => isReal_iff.mp (hA ⟨i, hi⟩ ⟨j, hj⟩)
  rw [Dense.factor, if_pos hfinite, h]

/-- Only matrices of real numbers are factored. -/
theorem regular_of_factor {A L : Mat Extended n n} (h : Dense.factor A = .ok L) :
    Triangular.Regular L := by
  unfold Dense.factor at h
  split at h
  · next hfinite =>
    split at h
    · next hL =>
      cases h
      refine regular_of_factor? (fun i j => isReal_iff.mpr ?_) hL
      simp only [Dense.allFinite, Vector.all_eq_true] at hfinite
      exact hfinite i i.isLt j j.isLt
    · cases h
  · cases h

theorem isReal_solve {L : Mat Extended n n} (h : Triangular.Regular L) {b : Vector Extended n}
    (hb : Vec.IsReal b) : Vec.IsReal (solve L b) :=
  h.transpose.isReal_solveUpper (h.isReal_solveLower hb)

end Cholesky

/-! ## Rotations -/

namespace Rotation

/-- Whether a rotation has real coefficients and can be applied. -/
structure Regular (g : Rotation Extended) : Prop where
  cosine : g.cosine.IsReal
  sine : g.sine.IsReal
  length : g.length.IsReal
  divisor : 1 + g.cosine ≠ 0

/-- A rotation of a real pair that is not shorter than the threshold is regular. -/
theorem regular_of_ofPair? {a b : Extended} {g : Rotation Extended} (ha : a.IsReal)
    (hb : b.IsReal) (h : ofPair? a b Scalar.epsilon = some g) : g.Regular := by
  obtain ⟨a, rfl⟩ := ha
  obtain ⟨b, rfl⟩ := hb
  simp only [ofPair?, Extended.hypot_real, Extended.epsilon_real, Extended.lt_real,
    decide_eq_true_eq] at h
  split at h
  · cases h
  · next hlong =>
    have hlength : Scalar.hypot a b ≠ 0 :=
      (Scalar.epsilon_pos.trans_le (not_lt.mp hlong)).ne'
    simp only [real_div a hlength, real_div b hlength, real_zero, Extended.lt_real,
      decide_eq_true_eq] at h
    -- the sign of the rotation is the one that makes its cosine nonnegative
    have hdivisor {c : ℝ} (hc : 0 ≤ c) : (1 : Extended) + real c ≠ 0 := by
      intro hzero
      have : 1 + c = 0 := Extended.real.inj hzero
      linarith
    split at h
    · next hneg =>
      cases h
      exact ⟨⟨_, rfl⟩, ⟨_, rfl⟩, ⟨_, rfl⟩, hdivisor (neg_nonneg.mpr hneg.le)⟩
    · next hneg =>
      cases h
      exact ⟨⟨_, rfl⟩, ⟨_, rfl⟩, ⟨_, rfl⟩, hdivisor (not_lt.mp hneg)⟩

namespace Regular

variable {g : Rotation Extended} (hg : g.Regular)
include hg

theorem first {u v : Extended} (hu : u.IsReal) (hv : v.IsReal) : (g.first u v).IsReal :=
  (hg.cosine.mul hu).add (hg.sine.mul hv)

theorem second {u v : Extended} (hu : u.IsReal) (hv : v.IsReal) : (g.second u v).IsReal :=
  ((hg.sine.div (Extended.IsReal.one.add hg.cosine) hg.divisor).mul
    (hu.add (hg.first hu hv))).sub hv

theorem onColumns {k : Nat} {A : Mat Extended k n} (hA : A.IsReal) (i j : Fin n)
    (rows : Fin k → Bool) : (g.onColumns A i j rows).IsReal := by
  intro r l
  rw [entry_onColumns]
  split
  · split
    · exact hg.second (hA r i) (hA r j)
    · split
      · exact hg.first (hA r i) (hA r j)
      · exact hA r l
  · exact hA r l

theorem onRows {k : Nat} {A : Mat Extended k n} (hA : A.IsReal) (i j : Fin k)
    (columns : Fin n → Bool) : (g.onRows A i j columns).IsReal :=
  (hg.onColumns hA.transpose i j columns).transpose

end Regular

end Rotation

/-! ## The workspace -/

namespace Workspace

theorem isReal_clearNext {s : Vector Extended n × Mat Extended n n}
    (hs : Vec.IsReal s.1 ∧ s.2.IsReal) (j : Nat) :
    Vec.IsReal (clearNext s j).1 ∧ (clearNext s j).2.IsReal := by
  unfold clearNext
  split
  · exact hs
  · split
    · exact hs
    · next g hg =>
      have hregular := Rotation.regular_of_ofPair? (hs.1 _) (hs.1 _) hg
      exact ⟨(hs.1.set _ .zero).set _ hregular.length, hregular.onColumns hs.2 _ _ _⟩

theorem isReal_clearTail {s : Vector Extended n × Mat Extended n n} (stop : Nat)
    (hs : Vec.IsReal s.1 ∧ s.2.IsReal) (j : Nat) :
    Vec.IsReal (clearTail stop j s).1 ∧ (clearTail stop j s).2.IsReal := by
  induction j generalizing s with
  | zero => exact hs
  | succ j ih =>
    unfold clearTail
    split
    · exact ih (isReal_clearNext hs j)
    · exact hs

theorem isReal_clearBelow {s : Mat Extended n n × Mat Extended n n} (count : Nat)
    (hs : s.1.IsReal ∧ s.2.IsReal) (j : Nat) :
    (clearBelow count s j).1.IsReal ∧ (clearBelow count s j).2.IsReal := by
  unfold clearBelow
  split
  · exact hs
  · split
    · exact hs
    · next g hg =>
      have hregular := Rotation.regular_of_ofPair? (hs.1 _ _) (hs.1 _ _) hg
      exact ⟨hregular.onRows ((hs.1.set _ _ .zero).set _ _ hregular.length) _ _ _,
        hregular.onColumns hs.2 _ _ _⟩

theorem isReal_retriangulate {s : Mat Extended n n × Mat Extended n n} (count remaining j : Nat)
    (hs : s.1.IsReal ∧ s.2.IsReal) :
    (retriangulate count remaining j s).1.IsReal ∧
      (retriangulate count remaining j s).2.IsReal := by
  induction remaining generalizing j s with
  | zero => exact hs
  | succ k ih => exact ih (j + 1) (isReal_clearBelow count hs j)

theorem isReal_closeColumn {R : Mat Extended n n} (hR : R.IsReal) (p count : Nat) :
    (closeColumn R p count).IsReal := by
  intro i j
  rw [closeColumn, Mat.entry_ofFn]
  split
  · exact hR i j
  · split
    · exact hR.extend _ _
    · split
      · exact .zero
      · exact hR i j

theorem isReal_withColumn {R : Mat Extended n n} {d : Vector Extended n} (hR : R.IsReal)
    (hd : Vec.IsReal d) (count : Nat) : (withColumn R d count).IsReal := by
  intro i j
  rw [withColumn, Mat.entry_ofFn]
  split
  · exact hd i
  · exact hR i j

theorem isReal_combineFrom {J : Mat Extended n n} {d : Vector Extended n} (hJ : J.IsReal)
    (hd : Vec.IsReal d) (first : Nat) : Vec.IsReal (combineFrom J d first) := by
  intro i
  rw [combineFrom, Vec.get_ofFn]
  refine isReal_foldl (fun s k hs => ?_) .zero
  split
  · exact hs.add ((hJ i k).mul (hd k))
  · exact hs

/-- Whether the factorization of a workspace consists of real numbers. -/
structure IsReal (ws : Workspace Extended n slots) : Prop where
  basis : ws.basis.IsReal
  triangle : ws.triangle.IsReal

/-- Whether the directions of a workspace do too. -/
structure IsRealAimed (ws : Workspace Extended n slots) : Prop extends IsReal ws where
  image : Vec.IsReal ws.image
  primal : Vec.IsReal ws.primal

variable {ws ws' : Workspace Extended n slots}

theorem IsReal.aim (h : ws.IsReal) {v : Vector Extended n} (hv : Vec.IsReal v) :
    (ws.aim v).IsRealAimed := by
  have himage : Vec.IsReal (ws.aim v).image := h.basis.transpose.mulVec hv
  exact ⟨⟨h.basis, h.triangle⟩, himage, isReal_combineFrom h.basis himage _⟩

theorem IsReal.eraseAt (h : ws.IsReal) (p : Nat) : (ws.eraseAt p).IsReal := by
  obtain ⟨htriangle, hbasis⟩ := isReal_retriangulate (s := (closeColumn ws.triangle p ws.count,
    ws.basis)) (ws.count - 1) (ws.count - 1 - p) p ⟨isReal_closeColumn h.triangle _ _, h.basis⟩
  exact ⟨hbasis, htriangle⟩

theorem IsRealAimed.fold (h : ws.IsRealAimed) {accepted : Bool}
    (hfold : ws.fold = (ws', accepted)) : ws'.IsReal := by
  have hcleared := isReal_clearTail (s := (ws.image, ws.basis)) ws.count ⟨h.image, h.basis⟩ (n - 1)
  unfold Workspace.fold at hfold
  split at hfold
  · cases hfold
    exact h.toIsReal
  · dsimp only at hfold
    split at hfold <;> cases hfold <;>
      exact ⟨hcleared.2, isReal_withColumn h.triangle hcleared.1 _⟩

/-- A step that the point takes is real, since a plan looks for finite steps only. -/
theorem isReal_step_of_plan {direction : Vector Extended ws.count} {first : Nat}
    {slack curvature step : Extended} (h : ws.plan direction first slack curvature = .full step ∨
      ∃ l, ws.plan direction first slack curvature = .partway step l) : step.IsReal := by
  have hfinite {s : Option Extended} (hs : finiteStep s = some step) : step.IsReal :=
    isReal_iff.mpr (Option.filter_eq_some_iff.mp hs).2
  unfold plan at h
  dsimp only at h
  split at h
  · rcases h with h | ⟨l, h⟩ <;> cases h
  · rcases h with h | ⟨l, h⟩ <;> cases h
  · rcases h with h | ⟨l, h⟩ <;> cases h
  · next hshort _ _ =>
    rcases h with h | ⟨l, h⟩ <;> cases h
    exact hfinite hshort
  · next hshort _ _ =>
    split at h
    all_goals
      rcases h with h | ⟨l, h⟩ <;> cases h
      exact hfinite hshort

/-! ## The divisor of the step onto an equality -/

theorem dot_lift (u v : Vector ℝ n) :
    Vec.dot (u.map Extended.real) (v.map Extended.real) = Extended.real (Vec.dot u v) := by
  refine (apply_foldl Extended.real (fun s i => ?_) 0).symm
  rw [Vector.get_map, Vector.get_map, real_mul, real_add]

/-- Over real numbers the point moves as it does in exact arithmetic. -/
theorem IsReal.exists_lift (h : ws.IsReal) {v : Vector Extended n} (hv : Vec.IsReal v) :
    ∃ (ws₀ : Workspace ℝ n slots) (v₀ : Vector ℝ n), v = v₀.map Extended.real ∧
      (ws.aim v).primal = (ws₀.aim v₀).primal.map Extended.real := by
  choose v₀ hv₀ using hv
  choose J hJ using h.basis
  let ws₀ : Workspace ℝ n slots :=
    { Workspace.blank n slots with count := ws.count, basis := Mat.ofFn J }
  have hnormal : v = (Vector.ofFn v₀).map Extended.real := Vec.ext_get fun i => by
    rw [hv₀, Vector.get_map, Vec.get_ofFn]
  have hcolumn (k : Fin n) : ws.basis.transpose.row k =
      (ws₀.basis.transpose.row k).map Extended.real := Vec.ext_get fun i => by
    rw [Vector.get_map]
    show ws.basis.transpose.entry k i = Extended.real (ws₀.basis.transpose.entry k i)
    simp [ws₀, Mat.transpose, hJ]
  have himage (k : Fin n) : (ws.aim v).image.get k =
      Extended.real ((ws₀.aim (Vector.ofFn v₀)).image.get k) := by
    show (ws.basis.transpose.mulVec v).get k =
      Extended.real ((ws₀.basis.transpose.mulVec (Vector.ofFn v₀)).get k)
    rw [Mat.mulVec, Mat.mulVec, Vec.get_ofFn, Vec.get_ofFn, hcolumn, hnormal, dot_lift]
  refine ⟨ws₀, Vector.ofFn v₀, hnormal, Vec.ext_get fun i => ?_⟩
  rw [Vector.get_map]
  show (combineFrom ws.basis (ws.aim v).image ws.count).get i =
    Extended.real ((combineFrom ws₀.basis (ws₀.aim (Vector.ofFn v₀)).image ws.count).get i)
  rw [combineFrom, combineFrom, Vec.get_ofFn, Vec.get_ofFn]
  refine (apply_foldl Extended.real (fun s k => ?_) 0).symm
  rw [himage, hJ]
  split
  · simp [ws₀, real_add, real_mul]
  · rfl

/-- Where the point can move, what the step onto an equality is divided by is not zero. -/
theorem IsReal.curvature_ne_zero (h : ws.IsReal) {c : Constraint Extended n}
    (hc : Vec.IsReal c.normal) (hmove : (ws.aim c.normal).canMove = true) :
    (ws.aim c.normal).curvature c ≠ 0 := by
  obtain ⟨ws₀, v₀, hnormal, hprimal⟩ := h.exists_lift hc
  have hmove₀ : (ws₀.aim v₀).canMove = true := by
    rw [canMove, hprimal, dot_lift, Extended.epsilon_real, Extended.abs_real,
      Extended.lt_real] at hmove
    rw [canMove, Scalar.abs_real, Scalar.lt_real]
    exact hmove
  have htail : tailFrom ws₀.count (ws₀.basis.toMatrixᵀ *ᵥ v₀.get) ≠ 0 := by
    intro hzero
    refine primal_ne_zero_of_canMove hmove₀ ?_
    rw [get_primal_aim, hzero, Matrix.mulVec_zero]
  have hpos : 0 < Vec.dot (ws₀.aim v₀).primal v₀ :=
    Factored.curvature_pos_of_tail (c := ⟨v₀, 0⟩) htail
  rw [curvature, hprimal, hnormal, dot_lift, real_zero]
  exact fun hzero => hpos.ne' (Extended.real.inj hzero)

end Workspace

end ActiveSet

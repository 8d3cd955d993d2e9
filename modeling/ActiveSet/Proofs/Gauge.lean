import ActiveSet.Proofs.Factorization
/-
  The same computation in other units

  Multiplying the objective of a program by a number changes the units of a
  solve. Entries of the basis, of an image and of the triangle change by one
  factor, those of a primal direction by its square, and dual values, steps
  and values of the objective by the inverse of that; points, rotations and
  dual directions do not change. `Gauge` names the three changes and lists
  what the computations rely on. No other law of arithmetic is needed, so the
  gauge that changes nothing is one over any scalars (`Gauge.same`).

  Every computation on the matrices of a solve commutes with a gauge as long
  as the same rotations are skipped (`TurnsAlike`), since a rotation is skipped
  by comparing a length with a fixed threshold.
-/

namespace ActiveSet

variable {α : Type}

/-- The matrix with a function applied to its entries. -/
def Mat.map {m n : Nat} (f : α → α) (A : Mat α m n) : Mat α m n :=
  ofFn fun i j => f (A.entry i j)

/-- A change of the units that a solve computes in. -/
structure Gauge (α : Type) [Scalar α] where
  /-- How an entry of the basis, of an image or of the triangle changes. -/
  image : α → α
  /-- How an entry of a primal direction changes. -/
  primal : α → α
  /-- How a dual value, a step or a value of the objective changes. -/
  dual : α → α
  /-- Which pivot scales belong together. -/
  Scales : α → α → Prop
  image_zero : image 0 = 0
  image_add : ∀ a b, image (a + b) = image a + image b
  image_sub : ∀ a b, image (a - b) = image a - image b
  image_neg : ∀ a, image (-a) = -image a
  image_mul : ∀ a b, image (a * b) = image a * b
  mul_image : ∀ a b, image (a * b) = a * image b
  image_div_image : ∀ a b, image a / image b = a / b
  image_abs : ∀ a, image (Scalar.abs a) = Scalar.abs (image a)
  image_hypot : ∀ a b, image (Scalar.hypot a b) = Scalar.hypot (image a) (image b)
  isZero_image : ∀ a, Scalar.isZero (image a) = Scalar.isZero a
  primal_zero : primal 0 = 0
  primal_add : ∀ a b, primal (a + b) = primal a + primal b
  primal_mul : ∀ a b, primal (a * b) = primal a * b
  image_mul_image : ∀ a b, image a * image b = primal (a * b)
  dual_zero : dual 0 = 0
  dual_add : ∀ a b, dual (a + b) = dual a + dual b
  dual_sub : ∀ a b, dual (a - b) = dual a - dual b
  dual_mul : ∀ a b, dual (a * b) = dual a * b
  mul_dual : ∀ a b, dual (a * b) = a * dual b
  dual_div : ∀ a b, dual (a / b) = dual a / b
  div_primal : ∀ a b, a / primal b = dual (a / b)
  dual_mul_primal : ∀ a b, dual a * primal b = a * b
  lt_dual : ∀ a b, Scalar.lt (dual a) (dual b) = Scalar.lt a b
  isFinite_dual : ∀ a, Scalar.isFinite (dual a) = Scalar.isFinite a
  isBelowTop_dual : ∀ a, Scalar.isBelowTop (dual a) = Scalar.isBelowTop a
  scales_one : Scales 1 1
  scales_larger : ∀ {r r' : α} (a : α), Scales r r' →
    Scales (Scalar.larger r (Scalar.abs a)) (Scalar.larger r' (Scalar.abs (image a)))

/-- The gauge that changes nothing. -/
def Gauge.same (α : Type) [Scalar α] : Gauge α where
  image := id
  primal := id
  dual := id
  Scales := Eq
  image_zero := rfl
  image_add _ _ := rfl
  image_sub _ _ := rfl
  image_neg _ := rfl
  image_mul _ _ := rfl
  mul_image _ _ := rfl
  image_div_image _ _ := rfl
  image_abs _ := rfl
  image_hypot _ _ := rfl
  isZero_image _ := rfl
  primal_zero := rfl
  primal_add _ _ := rfl
  primal_mul _ _ := rfl
  image_mul_image _ _ := rfl
  dual_zero := rfl
  dual_add _ _ := rfl
  dual_sub _ _ := rfl
  dual_mul _ _ := rfl
  mul_dual _ _ := rfl
  dual_div _ _ := rfl
  div_primal _ _ := rfl
  dual_mul_primal _ _ := rfl
  lt_dual _ _ := rfl
  isFinite_dual _ := rfl
  isBelowTop_dual _ := rfl
  scales_one := rfl
  scales_larger _ h := by rw [h]; rfl

/-! ## Entries -/

theorem apply_foldl {β γ : Type} {n : Nat} (f : β → γ) {next : β → Fin n → β}
    {next' : γ → Fin n → γ} (h : ∀ s i, f (next s i) = next' (f s) i) (a : β) :
    f (Fin.foldl n next a) = Fin.foldl n next' (f a) := by
  induction n with
  | zero => simp
  | succ n ih =>
    rw [Fin.foldl_succ_last, Fin.foldl_succ_last, h]
    exact congrArg (next' · (Fin.last n)) (ih fun s i => h s i.castSucc)

theorem apply_foldr {β γ : Type} {n : Nat} (f : β → γ) {next : Fin n → β → β}
    {next' : Fin n → γ → γ} (h : ∀ i s, f (next i s) = next' i (f s)) (a : β) :
    f (Fin.foldr n next a) = Fin.foldr n next' (f a) := by
  induction n with
  | zero => simp
  | succ n ih =>
    rw [Fin.foldr_succ, Fin.foldr_succ, h]
    exact congrArg (next' 0) (ih fun i s => h i.succ s)

namespace Vec

variable {n : Nat} (f : α → α)

theorem map_ofFn (v : Fin n → α) : (Vector.ofFn v).map f = Vector.ofFn fun i => f (v i) := by
  apply ext_get
  intro i
  rw [Vector.get_map, get_ofFn, get_ofFn]

theorem zero_map [Zero α] (hf : f 0 = 0) : (Vec.zero n).map f = Vec.zero n := by
  apply ext_get
  intro i
  simp [Vec.zero, Vec.get_eq_getElem, hf]

theorem extend_map [Zero α] (hf : f 0 = 0) (v : Vector α n) (i : Nat) :
    Vec.extend (v.map f) i = f (Vec.extend v i) := by
  unfold Vec.extend
  split
  · rw [Vector.get_map]
  · exact hf.symm

theorem set_map (v : Vector α n) (i : Fin n) (x : α) :
    Vec.set (v.map f) i (f x) = (Vec.set v i x).map f := by
  apply ext_get
  intro k
  rw [get_set, Vector.get_map, Vector.get_map, get_set]
  split <;> rfl

end Vec

namespace Mat

variable {m n : Nat} (f : α → α)

@[simp] theorem entry_map (A : Mat α m n) (i : Fin m) (j : Fin n) :
    (A.map f).entry i j = f (A.entry i j) := entry_ofFn _ i j

theorem zero_map [Zero α] (hf : f 0 = 0) : (Mat.zero m n).map f = Mat.zero m n :=
  ext_entry fun i j => by rw [entry_map, zero, entry_ofFn, hf]

theorem row_map (A : Mat α m n) (i : Fin m) : (A.map f).row i = (A.row i).map f := by
  apply Vec.ext_get
  intro j
  rw [Vector.get_map]
  exact entry_map f A i j

theorem transpose_map (A : Mat α m n) : (A.map f).transpose = A.transpose.map f :=
  ext_entry fun i j => by simp [transpose]

theorem tail_map (A : Mat α (m + 1) (n + 1)) : (A.map f).tail = A.tail.map f :=
  ext_entry fun i j => by simp [tail]

theorem extend_map [Zero α] (hf : f 0 = 0) (A : Mat α m n) (i j : Nat) :
    (A.map f).extend i j = f (A.extend i j) := by
  unfold extend
  split
  · exact entry_map f A _ _
  · exact hf.symm

theorem leading_map [Zero α] (hf : f 0 = 0) (A : Mat α m n) (k : Nat) :
    (A.map f).leading k = (A.leading k).map f :=
  ext_entry fun i j => by rw [leading, entry_ofFn, extend_map f hf, entry_map, leading, entry_ofFn]

theorem set_map (A : Mat α m n) (i : Fin m) (j : Fin n) (x : α) :
    (A.map f).set i j (f x) = (A.set i j x).map f :=
  ext_entry fun k l => by
    rw [entry_set, entry_map, entry_map, entry_set]
    split <;> rfl

end Mat

namespace Gauge

variable [Scalar α] (g : Gauge α)

/-! ## Products and triangular systems -/

theorem dot_image {n : Nat} (u v : Vector α n) :
    Vec.dot (u.map g.image) v = g.image (Vec.dot u v) := by
  have h : g.image (Vec.dot u v) =
      Fin.foldl n (fun s i => s + (u.map g.image).get i * v.get i) (g.image 0) :=
    apply_foldl g.image (fun s i => by rw [g.image_add, g.image_mul, Vector.get_map]) 0
  rw [h, g.image_zero]
  rfl

theorem dot_primal {n : Nat} (u v : Vector α n) :
    Vec.dot (u.map g.primal) v = g.primal (Vec.dot u v) := by
  have h : g.primal (Vec.dot u v) =
      Fin.foldl n (fun s i => s + (u.map g.primal).get i * v.get i) (g.primal 0) :=
    apply_foldl g.primal (fun s i => by rw [g.primal_add, g.primal_mul, Vector.get_map]) 0
  rw [h, g.primal_zero]
  rfl

theorem mulVec_image {m n : Nat} (A : Mat α m n) (v : Vector α n) :
    (A.map g.image).mulVec v = (A.mulVec v).map g.image := by
  apply Vec.ext_get
  intro i
  rw [Mat.mulVec, Vec.get_ofFn, Mat.row_map, g.dot_image, Vector.get_map, Mat.mulVec, Vec.get_ofFn]

theorem combineFrom_image {n : Nat} (J : Mat α n n) (d : Vector α n) (first : Nat) :
    Workspace.combineFrom (J.map g.image) (d.map g.image) first =
      (Workspace.combineFrom J d first).map g.primal := by
  apply Vec.ext_get
  intro i
  have h : g.primal ((Workspace.combineFrom J d first).get i) = Fin.foldl n
      (fun s k => if first ≤ k.val then s + (J.map g.image).entry i k * (d.map g.image).get k
        else s) (g.primal 0) := by
    rw [Workspace.combineFrom, Vec.get_ofFn]
    refine apply_foldl g.primal (fun s k => ?_) 0
    split
    · rw [g.primal_add, ← g.image_mul_image, Mat.entry_map, Vector.get_map]
    · rfl
  rw [Vector.get_map, h, g.primal_zero, Workspace.combineFrom, Vec.get_ofFn]

theorem hasZeroPivot_image {n : Nat} (T : Mat α n n) :
    Triangular.hasZeroPivot (T.map g.image) = Triangular.hasZeroPivot T := by
  simp only [Triangular.hasZeroPivot, Mat.entry_map, g.isZero_image]

/-- What solves a triangular system solves it in every gauge. -/
theorem solveUpper_image {n : Nat} (U : Mat α n n) (b : Vector α n) :
    Triangular.solveUpper (· / ·) (U.map g.image) (b.map g.image) =
      Triangular.solveUpper (· / ·) U b := by
  induction n with
  | zero => exact Vec.ext_get fun i => i.elim0
  | succ n ih =>
    have htail : (Vector.ofFn fun i : Fin n => g.image (b.get i.succ)) =
        (Vector.ofFn fun i : Fin n => b.get i.succ).map g.image := (Vec.map_ofFn _ _).symm
    simp only [Triangular.solveUpper, Mat.entry_map, Vector.get_map, Mat.tail_map, htail, ih]
    generalize Triangular.solveUpper (· / ·) U.tail (Vector.ofFn fun i => b.get i.succ) = rest
    have hknown : g.image (Fin.foldr n (fun j s => s - U.entry 0 j.succ * rest.get j) (b.get 0)) =
        Fin.foldr n (fun j s => s - g.image (U.entry 0 j.succ) * rest.get j)
          (g.image (b.get 0)) :=
      apply_foldr g.image (fun j s => by rw [g.image_sub, g.image_mul]) (b.get 0)
    rw [← hknown, g.image_div_image]

/-! ## Rotations -/

/-- Whether the rotations for some pairs are skipped in both gauges or in none. -/
def TurnsAlike (pairs : List (α × α)) : Prop :=
  ∀ ab ∈ pairs, Scalar.lt (Scalar.hypot (g.image ab.1) (g.image ab.2)) Scalar.epsilon =
    Scalar.lt (Scalar.hypot ab.1 ab.2) Scalar.epsilon

/-- The rotation for a pair in the other gauge turns by the same angle. -/
def turned (r : Rotation α) : Rotation α := { r with length := g.image r.length }

theorem ofPair?_image {a b : α} (h : g.TurnsAlike [(a, b)]) :
    Rotation.ofPair? (g.image a) (g.image b) Scalar.epsilon =
      (Rotation.ofPair? a b Scalar.epsilon).map g.turned := by
  have hsame := h (a, b) List.mem_cons_self
  simp only [Rotation.ofPair?, hsame]
  rw [← g.image_hypot]
  simp only [g.image_div_image]
  split
  · rfl
  · split
    · simp [turned, g.image_neg]
    · rfl

theorem onColumns_image {m n : Nat} (r : Rotation α) (A : Mat α m n) (i j : Fin n)
    (rows : Fin m → Bool) :
    (g.turned r).onColumns (A.map g.image) i j rows = (r.onColumns A i j rows).map g.image := by
  apply Mat.ext_entry
  intro k l
  have hfirst (u v : α) : (g.turned r).first (g.image u) (g.image v) = g.image (r.first u v) := by
    show r.cosine * g.image u + r.sine * g.image v = g.image (r.cosine * u + r.sine * v)
    rw [g.image_add, g.mul_image, g.mul_image]
  have hsecond (u v : α) :
      (g.turned r).second (g.image u) (g.image v) = g.image (r.second u v) := by
    unfold Rotation.second
    rw [hfirst, g.image_sub, g.mul_image, g.image_add]
    rfl
  simp only [Mat.entry_map, Rotation.entry_onColumns, hfirst, hsecond]
  split
  · split
    · rfl
    · split <;> rfl
  · rfl

theorem onRows_image {m n : Nat} (r : Rotation α) (A : Mat α m n) (i j : Fin m)
    (columns : Fin n → Bool) :
    (g.turned r).onRows (A.map g.image) i j columns = (r.onRows A i j columns).map g.image := by
  rw [Rotation.onRows, Mat.transpose_map, g.onColumns_image, Mat.transpose_map, Rotation.onRows]

variable {g}

theorem TurnsAlike.append {pairs later : List (α × α)} (h : g.TurnsAlike (pairs ++ later)) :
    g.TurnsAlike pairs ∧ g.TurnsAlike later :=
  ⟨fun ab hab => h ab (List.mem_append_left _ hab),
    fun ab hab => h ab (List.mem_append_right _ hab)⟩

open Workspace

/-! ## Folding in and taking out -/

theorem clearNext_image {n j : Nat} {s : Vector α n × Mat α n n}
    (h : g.TurnsAlike (pairAt s.1.get j)) :
    clearNext (s.1.map g.image, s.2.map g.image) j =
      ((clearNext s j).1.map g.image, (clearNext s j).2.map g.image) := by
  unfold clearNext
  unfold pairAt at h
  split
  · rfl
  · next here below hsome =>
    simp only [hsome] at h ⊢
    rw [Vector.get_map, Vector.get_map, ofPair?_image g h]
    cases Rotation.ofPair? (s.1.get here) (s.1.get below) Scalar.epsilon with
    | none => rfl
    | some r =>
      simp only [Option.map_some, g.onColumns_image]
      rw [← Vec.set_map, ← Vec.set_map, g.image_zero]
      rfl

theorem clearTail_image {n stop j : Nat} {s : Vector α n × Mat α n n}
    (h : g.TurnsAlike (clearedPairs stop j s)) :
    clearTail stop j (s.1.map g.image, s.2.map g.image) =
      ((clearTail stop j s).1.map g.image, (clearTail stop j s).2.map g.image) := by
  induction j generalizing s with
  | zero => rfl
  | succ j ih =>
    unfold clearedPairs at h
    unfold clearTail
    split
    · next hstop =>
      rw [if_pos hstop] at h
      rw [clearNext_image h.append.1]
      exact ih h.append.2
    · rfl

theorem clearBelow_image {n count j : Nat} {s : Mat α n n × Mat α n n}
    (h : g.TurnsAlike (if h : j < n then pairAt (fun i => s.1.entry i ⟨j, h⟩) j else [])) :
    clearBelow count (s.1.map g.image, s.2.map g.image) j =
      ((clearBelow count s j).1.map g.image, (clearBelow count s j).2.map g.image) := by
  unfold clearBelow
  split
  · rfl
  · next here below hsome =>
    obtain ⟨rfl, -⟩ := val_of_neighbours? hsome
    rw [dif_pos here.isLt] at h
    simp only [pairAt, hsome] at h ⊢
    rw [Mat.entry_map, Mat.entry_map, ofPair?_image g h]
    cases Rotation.ofPair? (s.1.entry here here) (s.1.entry below here) Scalar.epsilon with
    | none => rfl
    | some r =>
      have hzero : (s.1.map g.image).set below here 0 = (s.1.set below here 0).map g.image := by
        rw [← Mat.set_map, g.image_zero]
      simp only [Option.map_some, g.onColumns_image, hzero]
      rw [turned, Mat.set_map, ← turned, g.onRows_image]

theorem retriangulate_image {n count remaining j : Nat} {s : Mat α n n × Mat α n n}
    (h : g.TurnsAlike (retriangulatedPairs count remaining j s)) :
    retriangulate count remaining j (s.1.map g.image, s.2.map g.image) =
      ((retriangulate count remaining j s).1.map g.image,
        (retriangulate count remaining j s).2.map g.image) := by
  induction remaining generalizing j s with
  | zero => rfl
  | succ k ih =>
    unfold retriangulatedPairs at h
    unfold retriangulate
    rw [clearBelow_image h.append.1]
    exact ih h.append.2

theorem closeColumn_image {n : Nat} (R : Mat α n n) (p count : Nat) :
    closeColumn (R.map g.image) p count = (closeColumn R p count).map g.image := by
  apply Mat.ext_entry
  intro i j
  simp only [closeColumn, Mat.entry_ofFn, Mat.entry_map, Mat.extend_map _ g.image_zero]
  split
  · rfl
  · split
    · rfl
    · split
      · exact g.image_zero.symm
      · rfl

theorem withColumn_image {n : Nat} (R : Mat α n n) (d : Vector α n) (count : Nat) :
    withColumn (R.map g.image) (d.map g.image) count = (withColumn R d count).map g.image := by
  apply Mat.ext_entry
  intro i j
  simp only [withColumn, Mat.entry_ofFn, Mat.entry_map, Vector.get_map]
  split <;> rfl

end Gauge

end ActiveSet

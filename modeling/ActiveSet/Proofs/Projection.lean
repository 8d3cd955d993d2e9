import ActiveSet.Proofs.Direction
/-
  The step directions are projections

  Basis and triangle of a workspace depend on the order in which constraints
  came and went. The two directions that are computed from them do not. After
  any sequence of folds and deletions whose skipped rotations had nothing to
  clear, the images of the active normals are the columns of the triangle
  exactly (`Updated.tracks`). So the normals are independent, and a vector `v`
  splits in one way only into `A z`, with `z` orthogonal to the normals, and a
  combination of the normals (`eq_projection`):

      z = (A⁻¹ - A⁻¹ N S⁻¹ Nᵀ A⁻¹) v  and  r = S⁻¹ Nᵀ A⁻¹ v  with  S = Nᵀ A⁻¹ N.

  The right-hand sides mention the active normals only. Two histories that
  end with the same normals in another order have the same `z`, and `r` in
  that order (`directions_of_updated`).
-/

open Matrix

namespace ActiveSet

variable {n slots slots' : Nat}

/-! ## Members and their normals -/

/-- The normal of a member; zero when there is none at this place. -/
def memberNormal (members : List (Label × Vector ℝ n)) (k : Nat) : Fin n → ℝ :=
  (members[k]?.map fun x => x.2.get).getD 0

/-- The normals of the members, as the columns of a matrix. -/
def normalMatrix (members : List (Label × Vector ℝ n)) :
    Matrix (Fin n) (Fin members.length) ℝ :=
  Matrix.of fun i k => (members.get k).2.get i

theorem memberNormal_get (members : List (Label × Vector ℝ n)) (k : Fin members.length) :
    memberNormal members k = (members.get k).2.get := by
  simp [memberNormal]

theorem memberNormal_append_self (members : List (Label × Vector ℝ n)) (x : Label × Vector ℝ n) :
    memberNormal (members ++ [x]) members.length = x.2.get := by
  simp [memberNormal]

theorem memberNormal_append_of_lt {members : List (Label × Vector ℝ n)}
    (x : Label × Vector ℝ n) {k : Nat} (hk : k < members.length) :
    memberNormal (members ++ [x]) k = memberNormal members k := by
  rw [memberNormal, memberNormal, List.getElem?_append_left hk]

/-- The active normals are the columns of their matrix, and a combination of them is a product
with it. -/
theorem normalMatrix_mulVec (members : List (Label × Vector ℝ n)) (c : Nat → ℝ) :
    normalMatrix members *ᵥ (fun k => c k) =
      ∑ k ∈ Finset.range members.length, c k • memberNormal members k := by
  rw [Finset.sum_range, Matrix.mulVec_eq_sum]
  apply Finset.sum_congr rfl
  intro k _
  rw [memberNormal_get, op_smul_eq_smul]
  rfl

/-! ## Histories -/

/-- The workspaces that a start and any folds and deletions lead to, with the active constraints
and their normals in the order of the slots. Writing other buffers between the updates is no
update; a fold is one only if it is accepted and its skipped rotations had nothing to clear. -/
inductive Updated (A : Mat ℝ n n) :
    List (Label × Vector ℝ n) → Workspace ℝ n slots → Prop where
  | start (ws : Workspace ℝ n slots) {L : Mat ℝ n n} (lower : Triangular.IsLower L)
      (product : L.toMatrix * L.toMatrixᵀ = A.toMatrix) :
      Updated A [] { ws.reset with basis := (Triangular.inverseLower L).transpose }
  | write {members : List (Label × Vector ℝ n)} {ws ws' : Workspace ℝ n slots}
      (updated : Updated A members ws) (factors : ws'.factors = ws.factors)
      (labels : ∀ k < ws.count, ws'.label k = ws.label k) : Updated A members ws'
  | fold {members : List (Label × Vector ℝ n)} {ws ws' : Workspace ℝ n slots} {v : Vector ℝ n}
      (updated : Updated A members ws) (aimed : ws.image = (ws.aim v).image)
      (accepted : ws.fold = (ws', true)) (clean : SkipsOnlyZeros ws.foldPairs) :
      Updated A (members ++ [(ws.label ws.count, v)]) ws'
  | delete {members : List (Label × Vector ℝ n)} {ws ws' : Workspace ℝ n slots} {l : Label}
      {first p : Nat} (updated : Updated A members ws) (found : ws.position? l first = some p)
      (deleted : ws.delete l first = .ok ws') : Updated A (members.eraseIdx p) ws'

/-- What a workspace says of its members. -/
structure Tracks (A : Mat ℝ n n) (members : List (Label × Vector ℝ n))
    (ws : Workspace ℝ n slots) : Prop where
  count : ws.count = members.length
  label : ∀ k x, members[k]? = some x → ws.label k = x.1
  factored : Factored A ws.factors (memberNormal members) fun _ => 0

/-- The triangular factor of an invertible matrix has no zero on its diagonal. -/
theorem Triangular.IsLower.diagonal_ne_zero {L A : Mat ℝ n n} (lower : IsLower L)
    (product : L.toMatrix * L.toMatrixᵀ = A.toMatrix) (hA : IsUnit A.toMatrix) (i : Fin n) :
    L.entry i i ≠ 0 := by
  have hdet : L.toMatrix.det ≠ 0 := by
    intro hzero
    have hunit := (Matrix.isUnit_iff_isUnit_det _).mp hA
    rw [← product, Matrix.det_mul, hzero, zero_mul] at hunit
    exact not_isUnit_zero hunit
  rw [Matrix.det_of_isLowerTriangular L.toMatrix fun i j hij => lower i j hij] at hdet
  exact Finset.prod_ne_zero_iff.mp hdet i (Finset.mem_univ i)

namespace Tracks

variable {A : Mat ℝ n n} {members : List (Label × Vector ℝ n)} {ws ws' : Workspace ℝ n slots}

theorem start (ws : Workspace ℝ n slots) {L : Mat ℝ n n} (lower : Triangular.IsLower L)
    (product : L.toMatrix * L.toMatrixᵀ = A.toMatrix) (hA : IsUnit A.toMatrix) :
    Tracks A [] { ws.reset with basis := (Triangular.inverseLower L).transpose } where
  count := rfl
  label k x h := by cases h
  factored := Factored.of_count_eq_zero rfl
    (Cholesky.mul_basis_of_isLower lower (lower.diagonal_ne_zero product hA) product)
    (fun i k => Mat.entry_ofFn _ i k) le_rfl

theorem write (h : Tracks A members ws) (hfactors : ws'.factors = ws.factors)
    (hlabels : ∀ k < ws.count, ws'.label k = ws.label k) : Tracks A members ws' where
  count := (congrArg Factors.count hfactors).trans h.count
  label k x hx := by
    obtain ⟨hk, -⟩ := List.getElem?_eq_some_iff.mp hx
    rw [hlabels k (h.count ▸ hk)]
    exact h.label k x hx
  factored := hfactors ▸ h.factored

/-- A fold puts the constraint behind the others. -/
theorem fold (h : Tracks A members ws) {v : Vector ℝ n} (haimed : ws.image = (ws.aim v).image)
    (hfold : ws.fold = (ws', true)) (hclean : SkipsOnlyZeros ws.foldPairs) :
    Tracks A (members ++ [(ws.label ws.count, v)]) ws' := by
  have himage : ws.image.get = ws.basis.toMatrixᵀ *ᵥ v.get := by
    rw [haimed, Workspace.get_image_aim]
  have hcount : ws'.count = members.length + 1 := by rw [Workspace.count_fold hfold, h.count]
  refine ⟨by rw [hcount, List.length_append, List.length_singleton], ?_, ?_⟩
  · intro k x hx
    rw [Workspace.label_fold hfold]
    rcases Nat.lt_trichotomy k members.length with hk | rfl | hk
    · rw [List.getElem?_append_left hk] at hx
      exact h.label k x hx
    · rw [List.getElem?_concat_length] at hx
      cases hx
      rw [h.count]
    · rw [List.getElem?_eq_none (by simp; omega)] at hx
      cases hx
  · refine (h.factored.fold himage hfold).congr ?_ ?_
    · intro k hk
      change k < ws'.count at hk
      rcases Nat.lt_or_ge k members.length with hlt | hge
      · rw [memberNormal_append_of_lt _ hlt, Function.update_of_ne (by rw [h.count]; omega)]
      · obtain rfl : k = members.length := by omega
        rw [memberNormal_append_self, ← h.count, Function.update_self]
    -- nothing is missed of the new normal, since nothing that was skipped had to be cleared
    · intro k _
      rw [uncleared_eq_zero hclean, Function.update_eq_self]

/-- A deletion moves the later constraints one place forward. -/
theorem delete (h : Tracks A members ws) {l : Label} {first p : Nat}
    (hfound : ws.position? l first = some p) (hdelete : ws.delete l first = .ok ws') :
    Tracks A (members.eraseIdx p) ws' := by
  obtain ⟨-, hp, -⟩ := Workspace.position?_spec hfound
  simp only [Workspace.delete, hfound] at hdelete
  split at hdelete
  · next hroom =>
    cases hdelete
    have hcount : (ws.eraseAt p).count = ws.count - 1 := rfl
    refine ⟨?_, ?_, ?_⟩
    · rw [hcount, List.length_eraseIdx, if_pos (h.count ▸ hp), h.count]
    · intro k x hx
      rw [getElem?_eraseIdx_skip] at hx
      obtain ⟨hk, -⟩ := List.getElem?_eq_some_iff.mp hx
      have hle : k ≤ skip p k := by
        unfold skip
        split <;> omega
      rw [Workspace.label_eraseAt hroom (by rw [h.count]; omega)]
      exact h.label _ x hx
    · refine (h.factored.eraseAt hp).congr (fun k _ => ?_) fun _ _ => rfl
      rw [memberNormal, getElem?_eraseIdx_skip]
      rfl
  · split at hdelete <;> cases hdelete

end Tracks

/-- Whatever the history, nothing is missed of the active normals. -/
theorem Updated.tracks {A : Mat ℝ n n} (hA : IsUnit A.toMatrix)
    {members : List (Label × Vector ℝ n)} {ws : Workspace ℝ n slots}
    (h : Updated A members ws) : Tracks A members ws := by
  induction h with
  | start ws lower product => exact .start ws lower product hA
  | write _ factors labels ih => exact ih.write factors labels
  | fold _ aimed accepted clean ih => exact ih.fold aimed accepted clean
  | delete _ found deleted ih => exact ih.delete found deleted

/-! ## The directions -/

/-- A vector splits in one way only into `A z`, with `z` orthogonal to the columns of `N`, and a
combination of these columns. -/
theorem eq_projection {k : Nat} {A : Matrix (Fin n) (Fin n) ℝ} {N : Matrix (Fin n) (Fin k) ℝ}
    (hA : IsUnit A) (hN : IsUnit (Nᵀ * A⁻¹ * N)) {v z : Fin n → ℝ} {r : Fin k → ℝ}
    (hsplit : v = A *ᵥ z + N *ᵥ r) (horthogonal : Nᵀ *ᵥ z = 0) :
    z = (A⁻¹ - A⁻¹ * N * (Nᵀ * A⁻¹ * N)⁻¹ * Nᵀ * A⁻¹) *ᵥ v ∧
      r = ((Nᵀ * A⁻¹ * N)⁻¹ * Nᵀ * A⁻¹) *ᵥ v := by
  have hAdet := (Matrix.isUnit_iff_isUnit_det _).mp hA
  have hNdet := (Matrix.isUnit_iff_isUnit_det _).mp hN
  have hpoint : A⁻¹ *ᵥ v = z + (A⁻¹ * N) *ᵥ r := by
    rw [hsplit, Matrix.mulVec_add, Matrix.mulVec_mulVec, Matrix.nonsing_inv_mul _ hAdet,
      Matrix.one_mulVec, Matrix.mulVec_mulVec]
  have hgram : (Nᵀ * A⁻¹ * N) *ᵥ r = Nᵀ *ᵥ ((A⁻¹ * N) *ᵥ r) := by
    rw [Matrix.mulVec_mulVec, Matrix.mul_assoc]
  -- orthogonality leaves a square system for the coefficients
  have hdual : r = ((Nᵀ * A⁻¹ * N)⁻¹ * Nᵀ * A⁻¹) *ᵥ v := by
    calc r = (Nᵀ * A⁻¹ * N)⁻¹ *ᵥ (Nᵀ *ᵥ z + (Nᵀ * A⁻¹ * N) *ᵥ r) := by
          rw [horthogonal, zero_add, Matrix.mulVec_mulVec, Matrix.nonsing_inv_mul _ hNdet,
            Matrix.one_mulVec]
      _ = (Nᵀ * A⁻¹ * N)⁻¹ *ᵥ (Nᵀ *ᵥ (A⁻¹ *ᵥ v)) := by
          rw [hgram, hpoint, ← Matrix.mulVec_add Nᵀ]
      _ = ((Nᵀ * A⁻¹ * N)⁻¹ * Nᵀ * A⁻¹) *ᵥ v := by
          rw [Matrix.mulVec_mulVec, Matrix.mulVec_mulVec]
  refine ⟨?_, hdual⟩
  calc z = A⁻¹ *ᵥ v - (A⁻¹ * N) *ᵥ r := by rw [hpoint, add_sub_cancel_right]
    _ = (A⁻¹ - A⁻¹ * N * (Nᵀ * A⁻¹ * N)⁻¹ * Nᵀ * A⁻¹) *ᵥ v := by
        rw [hdual, Matrix.mulVec_mulVec, Matrix.sub_mulVec]
        simp only [Matrix.mul_assoc]

/-- Two families without repetitions and with the same members differ by a permutation. -/
theorem exists_equiv_of_range_eq {ι κ β : Type} {f : ι → β} {g : κ → β}
    (hf : Function.Injective f) (hg : Function.Injective g) (h : Set.range f = Set.range g) :
    ∃ σ : ι ≃ κ, ∀ i, g (σ i) = f i :=
  ⟨(Equiv.ofInjective f hf).trans ((Equiv.setCongr h).trans (Equiv.ofInjective g hg).symm),
    fun _ => Equiv.apply_ofInjective_symm hg _⟩

theorem range_normals (members : List (Label × Vector ℝ n)) :
    Set.range (fun k => (members.get k).2.get) =
      Vector.get '' {v | v ∈ members.map Prod.snd} := by
  ext w
  constructor
  · rintro ⟨k, rfl⟩
    exact ⟨_, List.mem_map_of_mem (List.get_mem members k), rfl⟩
  · rintro ⟨v, hv, rfl⟩
    obtain ⟨x, hx, rfl⟩ := List.mem_map.mp hv
    obtain ⟨k, rfl⟩ := List.get_of_mem hx
    exact ⟨k, rfl⟩

namespace Tracks

variable {A : Mat ℝ n n} {members : List (Label × Vector ℝ n)} {ws : Workspace ℝ n slots}

/-- The active normals are independent. -/
theorem linearIndependent (h : Tracks A members ws) :
    LinearIndependent ℝ fun k => (members.get k).2.get := by
  rw [Fintype.linearIndependent_iff]
  intro c hsum k
  -- the combination is one that the point could move along, namely not at all
  have hzero : (ws.aim (Vec.zero n)).primal.get = 0 := by
    have htail : tailFrom ws.count (ws.basis.toMatrixᵀ *ᵥ (Vec.zero n : Vector ℝ n).get) = 0 := by
      have hget : (Vec.zero n : Vector ℝ n).get = 0 := funext Vec.get_zero
      rw [hget, Matrix.mulVec_zero]
      exact funext fun i => ite_self 0
    rw [h.factored.primal_eq_zero.mpr htail]
  let weight : Nat → ℝ := fun j => if hj : j < members.length then c ⟨j, hj⟩ else 0
  have hweight (j : Fin members.length) : weight j = c j := dif_pos j.isLt
  have hcombined : A.toMatrix *ᵥ (ws.aim (Vec.zero n)).primal.get =
      ∑ j ∈ Finset.range ws.count, weight j • memberNormal members j := by
    rw [hzero, Matrix.mulVec_zero, h.count, Finset.sum_range, ← hsum]
    apply Finset.sum_congr rfl
    intro j _
    rw [hweight, memberNormal_get]
  rw [← hweight]
  exact h.factored.coefficients_eq_zero (fun _ _ => rfl) hcombined k
    (k.isLt.trans_eq h.count.symm)

theorem mulVec_injective (h : Tracks A members ws) :
    Function.Injective (normalMatrix members).mulVec :=
  Matrix.mulVec_injective_iff.mpr h.linearIndependent

/-- The matrix of the normals has as many independent rows, seen through a positive definite
matrix. -/
theorem isUnit_gram (h : Tracks A members ws) (hdefinite : A.toMatrix.PosDef) :
    IsUnit ((normalMatrix members)ᵀ * A.toMatrix⁻¹ * normalMatrix members) := by
  rw [← Matrix.conjTranspose_eq_transpose_of_trivial]
  exact (hdefinite.inv.conjTranspose_mul_mul_same h.mulVec_injective).isUnit

/-- The directions split the normal in hand. -/
theorem split (h : Tracks A members ws) (v : Vector ℝ n) :
    (normalMatrix members)ᵀ *ᵥ (ws.aim v).primal.get = 0 ∧
      ∃ r, (ws.aim v).dualDirection = .ok r ∧
        v.get = A.toMatrix *ᵥ (ws.aim v).primal.get +
          normalMatrix members *ᵥ fun k => Vec.extend r k := by
  constructor
  · funext k
    have hdot := h.factored.normal_dot_primal (k.isLt.trans_eq h.count.symm) rfl v
    rw [memberNormal_get] at hdot
    exact hdot
  · obtain ⟨r, hr⟩ := h.factored.exists_dualDirection v
    refine ⟨r, hr, ?_⟩
    rw [normalMatrix_mulVec, ← h.count]
    exact h.factored.normal_eq (fun _ _ => rfl) hr

end Tracks

section Directions

variable {A : Mat ℝ n n} {members members' : List (Label × Vector ℝ n)}
  {ws : Workspace ℝ n slots} {ws' : Workspace ℝ n slots'}

/-- Workspaces with the same active normals have the same directions, up to the order of the
normals. -/
theorem Tracks.same_directions (hdefinite : A.toMatrix.PosDef) (h : Tracks A members ws)
    (h' : Tracks A members' ws')
    (hnormals : ∀ v, v ∈ members.map Prod.snd ↔ v ∈ members'.map Prod.snd) :
    ∃ σ : Fin members.length ≃ Fin members'.length,
      (∀ k, (members'.get (σ k)).2 = (members.get k).2) ∧
      ∀ v, (ws'.aim v).primal = (ws.aim v).primal ∧
        ∀ r r', (ws.aim v).dualDirection = .ok r → (ws'.aim v).dualDirection = .ok r' →
          ∀ k, Vec.extend r' (σ k) = Vec.extend r k := by
  have hrange : Set.range (fun k => (members.get k).2.get) =
      Set.range fun k => (members'.get k).2.get := by
    rw [range_normals, range_normals]
    exact congrArg (Set.image Vector.get) (Set.ext hnormals)
  obtain ⟨σ, hσ⟩ := exists_equiv_of_range_eq h.linearIndependent.injective
    h'.linearIndependent.injective hrange
  refine ⟨σ, fun k => Vec.ext_get (congrFun (hσ k)), fun v => ?_⟩
  obtain ⟨horthogonal, r, hr, hsplit⟩ := h.split v
  obtain ⟨horthogonal', r', hr', hsplit'⟩ := h'.split v
  -- read in the order of the first history, the second splits the same vector
  have hcombined : normalMatrix members *ᵥ (fun k => Vec.extend r' (σ k)) =
      normalMatrix members' *ᵥ fun k => Vec.extend r' k := by
    rw [Matrix.mulVec_eq_sum, Matrix.mulVec_eq_sum, ← σ.sum_comp]
    apply Finset.sum_congr rfl
    intro k _
    exact congrArg (MulOpposite.op (Vec.extend r' (σ k)) • ·) (hσ k).symm
  have hrows : (normalMatrix members)ᵀ *ᵥ (ws'.aim v).primal.get = 0 := by
    funext k
    exact (congrArg (· ⬝ᵥ (ws'.aim v).primal.get) (hσ k).symm).trans (congrFun horthogonal' (σ k))
  rw [← hcombined] at hsplit'
  have hgram := h.isUnit_gram hdefinite
  obtain ⟨hprimal, hdual⟩ := eq_projection hdefinite.isUnit hgram hsplit horthogonal
  obtain ⟨hprimal', hdual'⟩ := eq_projection hdefinite.isUnit hgram hsplit' hrows
  refine ⟨Vec.ext_get (congrFun (hprimal'.trans hprimal.symm)), ?_⟩
  intro r₁ r₁' hr₁ hr₁' k
  obtain rfl : r = r₁ := Except.ok.inj (hr.symm.trans hr₁)
  obtain rfl : r' = r₁' := Except.ok.inj (hr'.symm.trans hr₁')
  exact congrFun (hdual'.trans hdual.symm) k

/-- After any history the active normals are independent, the directions are those of the
projection, and another history with the same active normals leads to the same ones. -/
theorem directions_of_updated (hdefinite : A.toMatrix.PosDef) (h : Updated A members ws) :
    (ws.count = members.length ∧ ∀ k : Fin members.length, ws.label k = (members.get k).1) ∧
      LinearIndependent ℝ (fun k => (members.get k).2.get) ∧
      (∀ v, (ws.aim v).primal.get =
          (A.toMatrix⁻¹ - A.toMatrix⁻¹ * normalMatrix members *
            ((normalMatrix members)ᵀ * A.toMatrix⁻¹ * normalMatrix members)⁻¹ *
            (normalMatrix members)ᵀ * A.toMatrix⁻¹) *ᵥ v.get ∧
        ∃ r, (ws.aim v).dualDirection = .ok r ∧ ∀ k : Fin members.length, Vec.extend r k =
          ((((normalMatrix members)ᵀ * A.toMatrix⁻¹ * normalMatrix members)⁻¹ *
            (normalMatrix members)ᵀ * A.toMatrix⁻¹) *ᵥ v.get) k) ∧
      ∀ (slots' : Nat) (members' : List (Label × Vector ℝ n)) (ws' : Workspace ℝ n slots'),
        Updated A members' ws' →
        (∀ v, v ∈ members.map Prod.snd ↔ v ∈ members'.map Prod.snd) →
        ∃ σ : Fin members.length ≃ Fin members'.length,
          (∀ k, (members'.get (σ k)).2 = (members.get k).2) ∧
          ∀ v, (ws'.aim v).primal = (ws.aim v).primal ∧
            ∀ r r', (ws.aim v).dualDirection = .ok r → (ws'.aim v).dualDirection = .ok r' →
              ∀ k, Vec.extend r' (σ k) = Vec.extend r k := by
  have htracks := h.tracks hdefinite.isUnit
  refine ⟨⟨htracks.count, fun k => htracks.label k _ (List.getElem?_eq_getElem k.isLt)⟩,
    htracks.linearIndependent, ?_, ?_⟩
  · intro v
    obtain ⟨horthogonal, r, hr, hsplit⟩ := htracks.split v
    obtain ⟨hprimal, hdual⟩ :=
      eq_projection hdefinite.isUnit (htracks.isUnit_gram hdefinite) hsplit horthogonal
    exact ⟨hprimal, r, hr, congrFun hdual⟩
  · intro slots' members' ws' h' hnormals
    exact htracks.same_directions hdefinite (h'.tracks hdefinite.isUnit) hnormals

end Directions

/-! ## Two histories in the plane -/

/-- A workspace in which nothing is active and the basis has the columns `(1, 0)` and `(0, s)`. -/
structure Axes (s : ℝ) (ws : Workspace ℝ 2 slots) : Prop where
  scale : ws.pivotScale = 1
  first : ∀ r, ws.basis.entry r 0 = if r = 0 then 1 else 0
  second : ∀ r, ws.basis.entry r 1 = if r = 1 then s else 0

/-- The identity, as the quadratic term in the plane. -/
noncomputable def planeTerm : Mat ℝ 2 2 := Mat.diagonal fun _ => 1

/-- Aiming at the first axis and naming the free slot are no updates. -/
theorem Axes.exists_aimed {s : ℝ} {ws : Workspace ℝ 2 slots} (h : Axes s ws)
    (hupdated : Updated planeTerm [] ws) (hcount : ws.count = 0) (l : Label) :
    ∃ ws' : Workspace ℝ 2 slots, Updated planeTerm [] ws' ∧ ws'.count = 0 ∧ Axes s ws' ∧
      ws'.image = (ws'.aim #v[1, 0]).image ∧ ws'.label 0 = l := by
  have hfree : (ws.aim #v[1, 0]).count = 0 := hcount
  have hroom : (ws.aim #v[1, 0]).count < slots + 1 := hfree ▸ slots.succ_pos
  obtain ⟨placed, hplace⟩ : ∃ placed, (ws.aim #v[1, 0]).place l 0 = .ok placed :=
    ⟨_, dif_pos hroom⟩
  have hlabel : placed.label 0 = l := by
    rw [Workspace.label_place hplace, if_pos hfree.symm]
  obtain ⟨_, hplaced⟩ := Workspace.place_ok hplace
  refine ⟨placed, ?_, ?_, ?_, ?_, hlabel⟩
  · exact hupdated.write (by rw [hplaced]; rfl) fun k hk => by omega
  · rw [hplaced]
    exact hcount
  · rw [hplaced]
    exact ⟨h.scale, h.first, h.second⟩
  · rw [hplaced]
    rfl

/-- Folding in the first axis turns the other column of the basis around. -/
theorem Axes.exists_fold {s : ℝ} {ws : Workspace ℝ 2 slots} (h : Axes s ws)
    (hupdated : Updated planeTerm [] ws) (hcount : ws.count = 0)
    (haimed : ws.image = (ws.aim #v[1, 0]).image) :
    ∃ ws' : Workspace ℝ 2 slots, Updated planeTerm [(ws.label 0, #v[1, 0])] ws' ∧
      ws'.count = 1 ∧ ws'.label 0 = ws.label 0 ∧ Axes (-s) ws' := by
  have himage : ws.image.get = ![1, 0] := by
    rw [haimed, Workspace.get_image_aim]
    funext i
    fin_cases i
    · simp [Matrix.mulVec, dotProduct, h.first, Vec.get_eq_getElem]
    · simp [Matrix.mulVec, dotProduct, h.second, Vec.get_eq_getElem]
  have hclean : SkipsOnlyZeros ws.foldPairs := by
    rw [Workspace.foldPairs_of_plane hcount, himage]
    intro ab hab hskip
    obtain rfl := List.mem_singleton.mp hab
    have hshort : Scalar.hypot (1 : ℝ) 0 < Scalar.epsilon := hskip
    rw [Scalar.hypot_real, mul_zero, add_zero, one_mul, Real.sqrt_one] at hshort
    exact absurd hshort (not_lt.mpr Scalar.epsilon_lt_one.le)
  obtain ⟨ws', hfold, hcount', hscale', -, hbasis'⟩ :=
    Workspace.fold_of_axis hcount h.scale (by rw [himage]; exact Scalar.epsilon_lt_one)
      (by rw [himage]; rfl)
  have hnew := hupdated.fold haimed hfold hclean
  rw [hcount] at hnew
  refine ⟨ws', hnew, hcount', Workspace.label_fold hfold 0, ?_, fun r => ?_, fun r => ?_⟩
  · rw [hscale', himage]
    exact max_self 1
  · rw [(hbasis' r).1, h.first]
  · rw [(hbasis' r).2, h.second]
    split
    · rfl
    · exact neg_zero

/-- Taking out the only constraint leaves the basis as it is. -/
theorem Axes.exists_delete {s : ℝ} {ws : Workspace ℝ 2 slots} {x : Label × Vector ℝ 2}
    (h : Axes s ws) (hupdated : Updated planeTerm [x] ws) (hcount : ws.count = 1)
    (hlabel : ws.label 0 = x.1) (hroom : 1 ≤ slots) :
    ∃ ws' : Workspace ℝ 2 slots, Updated planeTerm [] ws' ∧ ws'.count = 0 ∧ Axes s ws' := by
  have hfound : ws.position? x.1 0 = some 0 := by
    simp [Workspace.position?, hcount, List.range'_succ, hlabel]
  have hdelete : ws.delete x.1 0 = .ok (ws.eraseAt 0) := by
    simp [Workspace.delete, hfound, hcount, hroom]
  have hbasis : (ws.eraseAt 0).basis = ws.basis := by
    simp [Workspace.eraseAt, hcount, Workspace.retriangulate]
  refine ⟨ws.eraseAt 0, hupdated.delete hfound hdelete, ?_, h.scale, ?_, ?_⟩
  · show ws.count - 1 = 0
    omega
  · rw [hbasis]
    exact h.first
  · rw [hbasis]
    exact h.second

/-- The start in the plane. -/
theorem exists_axes : ∃ ws : Workspace ℝ 2 1, Updated planeTerm [] ws ∧ ws.count = 0 ∧
    Axes 1 ws := by
  have hproduct : (Mat.diagonal fun _ => 1 : Mat ℝ 2 2).toMatrix *
      (Mat.diagonal fun _ => 1 : Mat ℝ 2 2).toMatrixᵀ = planeTerm.toMatrix := by
    rw [planeTerm, Mat.toMatrix_diagonal, Matrix.diagonal_transpose, Matrix.diagonal_mul_diagonal,
      mul_one]
  have hlower : Triangular.IsLower (Mat.diagonal fun _ => 1 : Mat ℝ 2 2) := by
    intro i j hij
    rw [Mat.entry_diagonal, if_neg hij.ne]
  have hbasis (r k : Fin 2) :
      (Triangular.inverseLower (Mat.diagonal fun _ => 1 : Mat ℝ 2 2)).transpose.entry r k =
        if k = r then 1 else 0 := by
    rw [Cholesky.inverseLower_diagonal fun _ => one_ne_zero, Mat.transpose, Mat.entry_ofFn,
      Mat.entry_diagonal, one_div_one]
  refine ⟨_, .start (Workspace.blank 2 1) hlower hproduct, rfl, rfl, fun r => ?_, fun r => ?_⟩
  · exact (hbasis r 0).trans (if_congr eq_comm rfl rfl)
  · exact (hbasis r 1).trans (if_congr eq_comm rfl rfl)

/-- The history that folds in the first axis, and the one that takes it out and folds it in again,
end with different bases and with the same directions. -/
theorem directions_of_updated_axes : planeTerm.toMatrix.PosDef ∧
    ∃ (ws ws' : Workspace ℝ 2 1) (x : Label × Vector ℝ 2),
      Updated planeTerm [x] ws ∧ Updated planeTerm [x] ws' ∧
        ws.basis.entry 1 1 = -1 ∧ ws'.basis.entry 1 1 = 1 ∧
        ∀ v, (ws'.aim v).primal = (ws.aim v).primal := by
  have hdefinite : planeTerm.toMatrix.PosDef := by
    rw [planeTerm, Mat.toMatrix_diagonal]
    exact Matrix.PosDef.diagonal fun _ => one_pos
  -- the first fold
  obtain ⟨ws₀, hupdated₀, hcount₀, haxes₀⟩ := exists_axes
  obtain ⟨ws₁, hupdated₁, hcount₁, haxes₁, haimed₁, hlabel₁⟩ :=
    haxes₀.exists_aimed hupdated₀ hcount₀ (.inequality 0)
  obtain ⟨ws, hupdated, hcount, hlabel, haxes⟩ := haxes₁.exists_fold hupdated₁ hcount₁ haimed₁
  -- the deletion, and the second fold
  obtain ⟨ws₂, hupdated₂, hcount₂, haxes₂⟩ := haxes.exists_delete hupdated hcount hlabel le_rfl
  obtain ⟨ws₃, hupdated₃, hcount₃, haxes₃, haimed₃, hlabel₃⟩ :=
    haxes₂.exists_aimed hupdated₂ hcount₂ (.inequality 0)
  obtain ⟨ws', hupdated', -, -, haxes'⟩ := haxes₃.exists_fold hupdated₃ hcount₃ haimed₃
  rw [hlabel₁] at hupdated
  rw [hlabel₃] at hupdated'
  obtain ⟨-, -, -, hsame⟩ := directions_of_updated hdefinite hupdated
  obtain ⟨σ, -, hdirections⟩ := hsame 1 _ ws' hupdated' fun _ => Iff.rfl
  refine ⟨hdefinite, ws, ws', _, hupdated, hupdated', ?_, ?_, fun v => (hdirections v).1⟩
  · rw [haxes.second, if_pos rfl]
  · rw [haxes'.second, if_pos rfl, neg_neg]

end ActiveSet

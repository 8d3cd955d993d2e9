import ActiveSet.Proofs.Safety
/-
  Which equality a solve calls dependent

  An equality is refused when what its image has after the active coordinates
  is negligible. The rotations of the fold gather that part in the pivot
  without changing its length, provided those they skip have nothing to clear
  (`Workspace.accepts_iff`); and it is zero exactly if the normal is a
  combination of the active normals (`Factored.tail_eq_zero_iff`), which are
  those of the equalities before. Where no tail is negligible but not zero, the
  pivot test is therefore a test for dependence (`Machine.equalityStep_iff`).

  Every equality that is met is independent of those before it, so the solve
  stops at the first that is not, and only if the normals are dependent
  (`dependence_of_solve`). Bounds, inequalities and the linear term play no
  part in that.
-/

open Matrix

namespace ActiveSet

variable {n e m slots : Nat}

/-- A family is independent if no member is in the span of those before it. -/
theorem linearIndependent_iff_forall_notMem_span {V : Type} [AddCommGroup V] [Module ℝ V]
    {e : Nat} {v : Fin e → V} :
    LinearIndependent ℝ v ↔ ∀ i, v i ∉ Submodule.span ℝ (v '' Set.Iio i) := by
  induction e with
  | zero => exact ⟨fun _ i => i.elim0, fun _ => linearIndependent_empty_type⟩
  | succ e ih =>
    have hlast : v '' Set.Iio (Fin.last e) = Set.range (Fin.init v) := by
      apply Set.Subset.antisymm
      · rintro _ ⟨j, hj, rfl⟩
        exact ⟨⟨j, hj⟩, rfl⟩
      · rintro _ ⟨j, rfl⟩
        exact ⟨j.castSucc, j.castSucc_lt_last, rfl⟩
    have hearlier (i : Fin e) : v '' Set.Iio i.castSucc = Fin.init v '' Set.Iio i := by
      apply Set.Subset.antisymm
      · rintro _ ⟨j, hj, rfl⟩
        have hji : j.val < i.val := hj
        exact ⟨⟨j, hji.trans i.isLt⟩, hji, rfl⟩
      · rintro _ ⟨j, hj, rfl⟩
        exact ⟨j.castSucc, hj, rfl⟩
    rw [linearIndependent_finSucc', ih, Fin.forall_fin_succ', hlast]
    simp only [hearlier]
    rfl

/-! ## When a fold is accepted -/

/-- The coordinates from `k` on keep their length. -/
theorem KeepsBelow.dot_tailFrom {T : (Fin n → ℝ) →ₗ[ℝ] (Fin n → ℝ)} {k : Nat}
    (hT : KeepsBelow T k) (v : Fin n → ℝ) :
    tailFrom k (T v) ⬝ᵥ tailFrom k (T v) = tailFrom k v ⬝ᵥ tailFrom k v := by
  have hsplit (u : Fin n → ℝ) : tailFrom k u ⬝ᵥ tailFrom k u =
      u ⬝ᵥ u - ∑ i, if i.val < k then u i * u i else 0 := by
    rw [dotProduct, dotProduct, ← Finset.sum_sub_distrib]
    apply Finset.sum_congr rfl
    intro i _
    rcases Nat.lt_or_ge i.val k with hi | hi
    · rw [tailFrom_of_lt hi, if_pos hi, mul_zero, sub_self]
    · rw [tailFrom_of_le hi, if_neg (Nat.not_lt.mpr hi), sub_zero]
  rw [hsplit, hsplit, hT.dot]
  congr 1
  apply Finset.sum_congr rfl
  intro i _
  split
  · next hi => rw [hT.low v i hi]
  · rfl

namespace Workspace

/-- The tail from a coordinate on is that coordinate and what comes after it. -/
theorem dot_tailFrom_self {k : Nat} (hk : k < n) (v : Fin n → ℝ) :
    tailFrom k v ⬝ᵥ tailFrom k v = v ⟨k, hk⟩ * v ⟨k, hk⟩ + squaresBetween k (n - 1) v := by
  have hone : ∑ i : Fin n, (if i = ⟨k, hk⟩ then v i * v i else 0) = v ⟨k, hk⟩ * v ⟨k, hk⟩ := by
    simp
  rw [dotProduct, squaresBetween, ← hone, ← Finset.sum_add_distrib]
  apply Finset.sum_congr rfl
  intro i _
  rcases Nat.lt_trichotomy i.val k with hi | hi | hi
  · rw [tailFrom_of_lt hi, if_neg (fun h => by rw [h] at hi; exact lt_irrefl _ hi),
      if_neg (by omega), mul_zero, zero_add]
  · rw [tailFrom_of_le hi.ge, if_pos (Fin.ext hi), if_neg (by omega), add_zero]
  · rw [tailFrom_of_le hi.le, if_neg (fun h => by rw [h] at hi; exact lt_irrefl _ hi),
      if_pos ⟨hi, by omega⟩, zero_add]

/-- A fold that skips nothing but zeros is accepted exactly if the tail of the image is longer than
the scale allows to neglect. -/
theorem accepts_iff {ws : Workspace ℝ n slots} (hscale : 0 ≤ ws.pivotScale)
    (hclean : SkipsOnlyZeros ws.foldPairs) :
    ws.fold.2 = true ↔ Scalar.epsilon * ws.pivotScale <
      √(tailFrom ws.count ws.image.get ⬝ᵥ tailFrom ws.count ws.image.get) := by
  rcases Nat.lt_or_ge ws.count n with hcount | hcount
  · obtain ⟨T, hT, himage, -, -, hleft⟩ :=
      clearTail_spec ws.count (ws.image, ws.basis) (show n - 1 < n by omega)
    have hpairs : ws.foldPairs = clearedPairs ws.count (n - 1) (ws.image, ws.basis) :=
      if_neg (Nat.not_le.mpr hcount)
    rw [← hpairs, uncleared_eq_zero hclean] at hleft
    -- nothing is left after the pivot, so the pivot is as long as the tail
    have hpivot : √(tailFrom ws.count ws.image.get ⬝ᵥ tailFrom ws.count ws.image.get) =
        |(clearTail ws.count (n - 1) (ws.image, ws.basis)).1.get ⟨ws.count, hcount⟩| := by
      rw [← hT.dot_tailFrom, ← himage, dot_tailFrom_self hcount, hleft, add_zero,
        Real.sqrt_mul_self_eq_abs]
    rw [hpivot, fold, if_neg (Nat.not_le.mpr hcount)]
    simp only [Vec.extend_of_lt _ hcount, Scalar.abs_real, Scalar.le_real, decide_eq_true_eq]
    split
    · next hle => exact ⟨fun h => Bool.noConfusion h, fun h => absurd hle (not_le.mpr h)⟩
    · next hlt => exact ⟨fun _ => not_le.mp hlt, fun _ => rfl⟩
  -- a full triangle takes no more, and the tail is empty
  · have htail : tailFrom ws.count ws.image.get = 0 :=
      funext fun i => tailFrom_of_lt (i.isLt.trans_le hcount) _
    rw [htail, dotProduct_zero, Real.sqrt_zero, fold, if_pos hcount]
    exact ⟨fun h => Bool.noConfusion h,
      fun h => absurd h (not_lt.mpr (mul_nonneg Scalar.epsilon_pos.le hscale))⟩

end Workspace

/-- The tail of an image is zero exactly if the normal is a combination of the active ones. -/
theorem Factored.tail_eq_zero_iff {A : Mat ℝ n n} {ws : Workspace ℝ n slots}
    {normal : Nat → Fin n → ℝ} {residue : Nat → ℝ} (h : Factored A ws.factors normal residue)
    (hexact : ∀ k < ws.count, residue k = 0) (v : Vector ℝ n) :
    tailFrom ws.count (ws.basis.toMatrixᵀ *ᵥ v.get) = 0 ↔
      v.get ∈ Submodule.span ℝ (normal '' Set.Iio ws.count) := by
  constructor
  · intro htail
    obtain ⟨direction, hdirection⟩ := h.exists_dualDirection v
    rw [h.normal_eq hexact hdirection, h.primal_eq_zero.mpr htail, Matrix.mulVec_zero, zero_add]
    exact Submodule.sum_mem _ fun k hk => Submodule.smul_mem _ _
      (Submodule.subset_span ⟨k, Finset.mem_range.mp hk, rfl⟩)
  · intro hspan
    rw [← Finset.coe_range] at hspan
    obtain ⟨c, hc⟩ := (Submodule.mem_span_image_finset_iff_exists_fun' ℝ).mp hspan
    funext i
    rcases Nat.lt_or_ge i.val ws.count with hi | hi
    · exact tailFrom_of_lt hi _
    -- the columns of the active normals end with the active coordinates
    · rw [tailFrom_of_le hi, ← hc, h.image_sum hexact]
      apply Finset.sum_eq_zero
      intro k hk
      rw [h.extend_triangle_eq_zero ((Finset.mem_range.mp hk).trans_le hi), mul_zero]

/-- In one variable the squared length of an image is that of the normal over the quadratic
term. -/
theorem Factored.tail_of_one {A : Mat ℝ 1 1} {ws : Workspace ℝ 1 slots} {normal : Nat → Fin 1 → ℝ}
    {residue : Nat → ℝ} (h : Factored A ws.factors normal residue) (hfree : ws.count = 0)
    (v : Vector ℝ 1) : tailFrom ws.count (ws.aim v).image.get ⬝ᵥ
      tailFrom ws.count (ws.aim v).image.get = v.get 0 ^ 2 / A.entry 0 0 := by
  rw [ws.get_image_aim, ← Factored.dot_primal, dotProduct, Fin.sum_univ_one,
    h.get_primal_of_one hfree v, sq, mul_div_assoc]

/-! ## The equalities of a solve -/

/-- The normal of an equality. -/
def Problem.equalityNormal (P : Problem ℝ n e m) (i : Fin e) : Fin n → ℝ :=
  (P.equalities.get i).normal.get

/-- Whether the normal of an equality is the first that is in the span of those before it. -/
def Problem.FirstDependent (P : Problem ℝ n e m) (i : Fin e) : Prop :=
  P.equalityNormal i ∈ Submodule.span ℝ (P.equalityNormal '' Set.Iio i) ∧
    ∀ j < i, P.equalityNormal j ∉ Submodule.span ℝ (P.equalityNormal '' Set.Iio j)

theorem Problem.FirstDependent.unique {P : Problem ℝ n e m} {i j : Fin e}
    (hi : P.FirstDependent i) (hj : P.FirstDependent j) : i = j := by
  rcases lt_trichotomy i j with hlt | heq | hlt
  · exact absurd hi.1 (hj.2 i hlt)
  · exact heq
  · exact absurd hj.1 (hi.2 j hlt)

namespace Machine

/-- The length of what the image of the constraint in hand has after the active coordinates. -/
noncomputable def tailLength (P : Problem ℝ n e m) (s : Machine ℝ n slots m) : ℝ :=
  match s.inHand P with
  | some c =>
    let ws := s.iterate.workspace.aim c.normal
    √(tailFrom ws.count ws.image.get ⬝ᵥ tailFrom ws.count ws.image.get)
  | none => 0

/-- Whether a fold has nothing to clear where it skips a rotation, and a tail that is zero or not
negligible. -/
def FoldsClearly (P : Problem ℝ n e m) (s : Machine ℝ n slots m) : Prop :=
  SkipsOnlyZeros (s.foldPairs P) ∧
    (s.tailLength P = 0 ∨ Scalar.epsilon * s.iterate.workspace.pivotScale < s.tailLength P)

theorem tailLength_of_inHand {P : Problem ℝ n e m} {s : Machine ℝ n slots m}
    {c : Constraint ℝ n} (h : s.inHand P = some c) : s.tailLength P =
      let ws := s.iterate.workspace.aim c.normal
      √(tailFrom ws.count ws.image.get ⬝ᵥ tailFrom ws.count ws.image.get) := by
  rw [tailLength, h]

end Machine

theorem Problem.normal_equality (P : Problem ℝ n e m) (i : Fin e) :
    P.normal (.equality i) = P.equalityNormal i :=
  P.normal_of_constraint? (P.constraint?_equality i)

/-- Where the constraints of the first slots are equalities, the active normals are those of the
equalities before. -/
theorem Seating.normals_eq (P : Problem ℝ n e m) {isActive : Vector Bool m} {label : Nat → Label}
    {i : Fin e} (h : Seating i i label isActive) :
    (fun k => P.normal (label k)) '' Set.Iio i.val = P.equalityNormal '' Set.Iio i := by
  have hnormal (k : Fin e) (hk : k < i) : P.normal (label k) = P.equalityNormal k := by
    rw [h.equality k hk, P.normal_equality]
  apply Set.Subset.antisymm
  · rintro _ ⟨k, hk, rfl⟩
    have hki : k < i.val := hk
    exact ⟨⟨k, hki.trans i.isLt⟩, hki, (hnormal ⟨k, hki.trans i.isLt⟩ hki).symm⟩
  · rintro _ ⟨k, hk, rfl⟩
    exact ⟨k, hk, hnormal k hk⟩

namespace Machine

variable {P : Problem ℝ n e m} {limit : Nat} {tolerance : ℝ} {start s s' : Machine ℝ n slots m}
  {history : List (Admission ℝ n slots m)}

theorem lt_sqrt_iff_ne_zero {a : ℝ} {t : Fin n → ℝ} (ha : 0 ≤ a)
    (h : √(t ⬝ᵥ t) = 0 ∨ a < √(t ⬝ᵥ t)) : a < √(t ⬝ᵥ t) ↔ t ≠ 0 := by
  constructor
  · rintro hlt rfl
    rw [dotProduct_zero, Real.sqrt_zero] at hlt
    exact absurd hlt (not_lt.mpr ha)
  · intro hne
    refine h.resolve_left fun hzero => hne ?_
    have hnonneg : 0 ≤ t ⬝ᵥ t := Finset.sum_nonneg fun i _ => mul_self_nonneg _
    exact dotProduct_self_eq_zero.mp ((Real.sqrt_eq_zero hnonneg).mp hzero)

/-- An equality is met exactly if its fold is accepted: there is a direction, and a free slot. -/
theorem exists_next_iff {i : Fin e} (hcolumns : Columns P history s.iterate.snapshot)
    (hroom : s.iterate.workspace.count ≤ slots)
    (hpairs : SkipsOnlyZeros (s.iterate.workspace.aim (P.equalities.get i).normal).foldPairs) :
    (∃ s', s.equalityStep P i = .next s') ↔
      let ws := s.iterate.workspace.aim (P.equalities.get i).normal
      Scalar.epsilon * ws.pivotScale <
        √(tailFrom ws.count ws.image.get ⬝ᵥ tailFrom ws.count ws.image.get) := by
  obtain ⟨direction, hdirection⟩ :=
    hcolumns.factored.exists_dualDirection (P.equalities.get i).normal
  have hscale : 1 ≤ s.iterate.workspace.pivotScale := hcolumns.factored.scale
  simp only [equalityStep, hdirection]
  split
  · next hfailed =>
    refine absurd hfailed (Workspace.place_ne_error ?_)
    exact hroom
  · next placed hplace =>
    -- moving the dual values and naming the free slot is nothing to the fold
    have haccepts : placed.fold.2 = true ↔
        Scalar.epsilon * s.iterate.workspace.pivotScale <
          let ws := s.iterate.workspace.aim (P.equalities.get i).normal
          √(tailFrom ws.count ws.image.get ⬝ᵥ tailFrom ws.count ws.image.get) := by
      obtain ⟨_, rfl⟩ := Workspace.place_ok hplace
      exact Workspace.accepts_iff (zero_le_one.trans hscale) hpairs
    refine Iff.trans ?_ haccepts
    obtain ⟨folded, accepted⟩ := placed.fold
    cases accepted with
    | true => exact ⟨fun _ => rfl, fun _ => ⟨_, rfl⟩⟩
    | false =>
      refine iff_of_false ?_ Bool.false_ne_true
      rintro ⟨_, h⟩
      cases h

/-- An equality is met exactly if its normal is not in the span of those before it. -/
theorem equalityStep_iff {i : Fin e} (hphase : s.phase = .equality i)
    (hstanding : Standing P tolerance s) (hcolumns : Columns P history s.iterate.snapshot)
    (hclean : ∀ a ∈ history, SkipsOnlyZeros (a.before.foldPairs P)) (hroom : i ≤ slots)
    (hclear : s.FoldsClearly P) :
    (∃ s', s.equalityStep P i = .next s') ↔
      P.equalityNormal i ∉ Submodule.span ℝ (P.equalityNormal '' Set.Iio i) := by
  rw [Standing, hphase] at hstanding
  obtain ⟨-, hcount, hseated⟩ := hstanding
  have hinHand := inHand_of_equality (P := P) hphase
  obtain ⟨hpairs, htail⟩ := hclear
  rw [foldPairs_of_inHand hinHand] at hpairs
  rw [tailLength_of_inHand hinHand] at htail
  have hscale : 1 ≤ s.iterate.workspace.pivotScale := hcolumns.factored.scale
  -- the active normals are those of the equalities before
  have hbefore : (fun k => P.normal (s.iterate.workspace.label k)) ''
      Set.Iio s.iterate.workspace.count = P.equalityNormal '' Set.Iio i := by
    have hseating := hseated.seating
    rw [hcount] at hseating ⊢
    exact hseating.normals_eq P
  calc (∃ s', s.equalityStep P i = .next s')
      ↔ Scalar.epsilon * s.iterate.workspace.pivotScale < _ :=
        exists_next_iff hcolumns (hcount.trans_le hroom) hpairs
    _ ↔ tailFrom s.iterate.workspace.count
          (s.iterate.workspace.aim (P.equalities.get i).normal).image.get ≠ 0 :=
        lt_sqrt_iff_ne_zero (mul_nonneg Scalar.epsilon_pos.le (zero_le_one.trans hscale)) htail
    _ ↔ P.equalityNormal i ∉ Submodule.span ℝ (P.equalityNormal '' Set.Iio i) := by
        rw [Workspace.get_image_aim, ← hbefore]
        exact not_congr (hcolumns.factored.tail_eq_zero_iff (hcolumns.residue_eq_zero hclean) _)

/-- Where an equality is next, the transition adds it. -/
theorem step_of_equality {i : Fin e} (hphase : s.phase = .equality i) :
    s.step P limit tolerance = s.equalityStep P i := by
  rw [step, hphase]
  exact dif_pos i.isLt

/-- A state with the first equality next is the one that the run sets out from. -/
theorem Course.eq_start (h : Course P limit tolerance start history s)
    (hphase : s.phase = .equality 0) : s = start := by
  cases h with
  | start => rfl
  | next _ hstep =>
    cases leads_of_step hstep with
    | met => cases hphase
    | allMet | begun | chosen | dropped | added | undone => cases hphase

section Equalities

variable (hclear : ∀ history (s : Machine ℝ n slots m),
  Course P limit tolerance start history s → ∀ i : Fin e, s.phase = .equality i → s.FoldsClearly P)
include hclear

/-- While equalities are met, no fold has skipped anything that was to be cleared. -/
theorem clean_of_course (hcourse : Course P limit tolerance start history s) {i : Nat}
    (hi : s.phase = .equality i) : ∀ a ∈ history, SkipsOnlyZeros (a.before.foldPairs P) := by
  induction hcourse generalizing i with
  | start => exact fun a ha => absurd ha List.not_mem_nil
  | @next history s s' hcourse hstep ih =>
    intro a ha
    have hlead := leads_of_step hstep
    cases hlead with
    | @met it it' j _ _ hmet =>
      rcases List.mem_append.mp ha with hnew | hold
      · rw [List.mem_singleton.mp hnew]
        exact (hclear _ _ hcourse j rfl).1
      · exact ih rfl a hold
    | allMet | begun | chosen | dropped | added | undone => cases hi

/-- Every equality that has been met is independent of those before it. -/
theorem independent_of_course (hphase : start.phase = .equality 0)
    (hstanding : Standing P tolerance start) (hcolumns : Columns P [] start.iterate.snapshot)
    (hroom : e ≤ slots) (hcourse : Course P limit tolerance start history s) (j : Fin e)
    (hj : ∀ i, s.phase = .equality i → j < i) :
    P.equalityNormal j ∉ Submodule.span ℝ (P.equalityNormal '' Set.Iio j) := by
  induction hcourse with
  | start => exact absurd (hj 0 hphase) (Nat.not_lt_zero _)
  | @next history s s' hcourse hstep ih =>
    have hlead := leads_of_step hstep
    cases hlead with
    | @met it it' i iterations evaluations hmet =>
      rcases Nat.lt_succ_iff_lt_or_eq.mp (hj _ rfl) with hlt | heq
      · exact ih fun i' hi' => by cases hi'; exact hlt
      -- the one that has just been met
      · obtain rfl : j = i := Fin.ext heq
        have hmeets := (step_of_equality (i := j) rfl).symm.trans hstep
        exact (equalityStep_iff rfl (standing_of_course hstanding hcourse)
          (columns_of_course hphase hstanding hcolumns hcourse)
          (clean_of_course hclear hcourse rfl) (j.isLt.le.trans hroom)
          (hclear _ _ hcourse j rfl)).mp ⟨_, hmeets⟩
    | allMet hle => exact ih fun i' hi' => by cases hi'; exact j.isLt.trans_le hle
    | begun | chosen | dropped | added | undone => exact ih fun i' hi' => by cases hi'

end Equalities

end Machine

/-! ## The outcome -/

namespace Program

variable {program : Program ℝ} {limit : Int} {buffers : Option (Buffers ℝ)}
  {guess : Option (Guess ℝ)}

/-- Whether every equality of a solve is folded in or refused clearly. -/
def FoldsClearly (program : Program ℝ) (limit : Int) (buffers : Option (Buffers ℝ)) : Prop :=
  ∀ (slots : Nat) (history : List (Admission ℝ program.dimension slots program.inequalityCount))
    (s : Machine ℝ program.dimension slots program.inequalityCount),
    program.Course limit buffers history s →
      ∀ i : Fin program.equalityCount, s.phase = .equality i → s.FoldsClearly program.problem

section Course

variable {slots : Nat}
  {history : List (Admission ℝ program.dimension slots program.inequalityCount)}
  {s : Machine ℝ program.dimension slots program.inequalityCount}
  (hsymmetric : program.problem.quadratic.IsSymmetric)
  (hclear : program.FoldsClearly limit buffers) (hcourse : program.Course limit buffers history s)
include hsymmetric hclear hcourse

theorem independent_of_course (j : Fin program.equalityCount)
    (hj : ∀ i, s.phase = .equality i → j < i) :
    program.problem.equalityNormal j ∉
      Submodule.span ℝ (program.problem.equalityNormal '' Set.Iio j) := by
  obtain ⟨L, workspace, hfactor, hroom, hmachine⟩ := hcourse
  exact Machine.independent_of_course
    (fun history s hs => hclear _ history s ⟨L, workspace, hfactor, hroom, hs⟩) rfl
    (Machine.standing_start _ _ _ _ _) (columns_origin hsymmetric hfactor workspace)
    ((Nat.le_add_right _ _).trans (room_le hroom)) hmachine j hj

/-- An equality that ends the solve is in the span of those before it. -/
theorem dependent_of_stuck {i : Fin program.equalityCount} (hphase : s.phase = .equality i)
    (hend : ∀ s', program.step limit s ≠ .next s') :
    program.problem.equalityNormal i ∈
      Submodule.span ℝ (program.problem.equalityNormal '' Set.Iio i) := by
  have hstanding := standing_of_course hcourse
  have hcolumns := columns_of_course hsymmetric hcourse
  have hfolds := hclear _ _ _ hcourse i hphase
  obtain ⟨L, workspace, hfactor, hroom, hmachine⟩ := hcourse
  have hclean := Machine.clean_of_course
    (fun history s hs => hclear _ history s ⟨L, workspace, hfactor, hroom, hs⟩) hmachine hphase
  have hslots : i ≤ slots := i.isLt.le.trans ((Nat.le_add_right _ _).trans (room_le hroom))
  by_contra hspan
  obtain ⟨s', hnext⟩ :=
    (Machine.equalityStep_iff hphase hstanding hcolumns hclean hslots hfolds).mpr hspan
  exact hend s' ((Machine.step_of_equality hphase).trans hnext)

end Course

variable (hdefinite : program.problem.quadratic.toMatrix.PosDef) (hguess : program.Guesses guess)
  (hroom : ∃ room, program.room buffers = .ok room) (hlimit : 0 ≤ limit)
  (hclear : program.FoldsClearly limit buffers)
include hdefinite hguess hroom hlimit hclear

/-- Either every equality is independent of those before it and the solve has an answer, or it
stops at the first that is not. -/
theorem answered_or_firstDependent :
    ((∃ answer, (program.solve guess limit buffers).outcome = .ok answer) ∧
        ∀ j, program.problem.equalityNormal j ∉
          Submodule.span ℝ (program.problem.equalityNormal '' Set.Iio j)) ∨
      ∃ i : Fin program.equalityCount,
        (program.solve guess limit buffers).outcome = .error (.dependentEquality i) ∧
          program.problem.FirstDependent i := by
  have hsymmetric := Mat.isSymmetric_of_isHermitian hdefinite.isHermitian
  by_cases hconstraints : program.constraintCount = 0
  · left
    refine ⟨exists_answer_of_unconstrained hsymmetric hguess hlimit hdefinite hconstraints, ?_⟩
    intro j
    have hnone : program.equalityCount = 0 := Nat.eq_zero_of_add_eq_zero_right hconstraints
    exact (Fin.cast hnone j).elim0
  · obtain ⟨slots, history, last, final, hcourse, ⟨status, answer, hstop, hanswer⟩ |
        ⟨i, hphase, hfail, hfailed⟩⟩ :=
      exists_end hsymmetric hguess hroom hlimit hdefinite hconstraints
    -- a solve with an answer has left the equalities behind
    · left
      refine ⟨⟨answer, hanswer⟩, fun j => independent_of_course hsymmetric hclear hcourse j ?_⟩
      intro i hi
      cases Machine.ends_of_step hstop <;> cases hi
    · right
      refine ⟨i, hfailed, dependent_of_stuck hsymmetric hclear hcourse hphase ?_, ?_⟩
      · intro s' hnext
        cases hfail.symm.trans hnext
      · intro j hj
        refine independent_of_course hsymmetric hclear hcourse j fun k hk => ?_
        cases hphase.symm.trans hk
        exact hj

/-- A solve whose folds are clear stops at a dependent equality exactly if the normals of the
equalities are dependent, and at the first that is in the span of those before it. -/
theorem dependence_of_solve :
    ((∃ i, (program.solve guess limit buffers).outcome = .error (.dependentEquality i)) ↔
        ¬ LinearIndependent ℝ program.problem.equalityNormal) ∧
      ∀ i : Nat, (program.solve guess limit buffers).outcome = .error (.dependentEquality i) ↔
        ∃ hi : i < program.equalityCount, program.problem.FirstDependent ⟨i, hi⟩ := by
  rw [linearIndependent_iff_forall_notMem_span]
  rcases answered_or_firstDependent hdefinite hguess hroom hlimit hclear with
    ⟨⟨answer, hanswer⟩, hindependent⟩ | ⟨first, hfailed, hfirst⟩
  · rw [hanswer]
    refine ⟨⟨fun ⟨_, h⟩ => (nomatch h), fun h => absurd hindependent h⟩, fun i => ?_⟩
    exact ⟨fun h => (nomatch h), fun ⟨hi, hdependent⟩ => absurd hdependent.1 (hindependent _)⟩
  · rw [hfailed]
    refine ⟨⟨fun _ h => h first hfirst.1, fun _ => ⟨first, rfl⟩⟩, fun i => ?_⟩
    constructor
    · rintro h
      cases h
      exact ⟨first.isLt, hfirst⟩
    · rintro ⟨hi, hdependent⟩
      rw [hfirst.unique hdependent]

omit hdefinite hguess hroom hlimit hclear

/-- A solve in one variable folds clearly if the first normal is zero or not short: the scale is
still one where it is folded in, and no later equality finds a free column. -/
theorem foldsClearly_of_one {P : Problem ℝ 1 e m} (hsymmetric : P.quadratic.IsSymmetric)
    (hfirst : ∀ i : Fin e, i.val = 0 → P.equalityNormal i 0 = 0 ∨
      Scalar.epsilon < √(P.equalityNormal i 0 ^ 2 / P.quadratic.entry 0 0))
    (limit : Int) (buffers : Option (Buffers ℝ)) :
    (⟨P⟩ : Program ℝ).FoldsClearly limit buffers := by
  intro slots history s hcourse i hphase
  constructor
  · intro pair hpair
    rw [Machine.foldPairs_of_one] at hpair
    exact absurd hpair List.not_mem_nil
  · have hcount : s.iterate.workspace.count = i := by
      have hstanding := standing_of_course hcourse
      rw [Machine.Standing, hphase] at hstanding
      exact hstanding.2.1
    have hfactored : Factored P.quadratic s.iterate.workspace.factors _ _ :=
      (columns_of_course hsymmetric hcourse).factored
    rw [Machine.tailLength_of_inHand (Machine.inHand_of_equality hphase)]
    rcases Nat.eq_zero_or_pos i.val with hzero | hpos
    · have hscale : s.iterate.workspace.pivotScale = 1 := by
        obtain ⟨L, workspace, -, -, hmachine⟩ := hcourse
        rw [hmachine.eq_start (hzero ▸ hphase)]
        rfl
      have hlength := hfactored.tail_of_one (hcount.trans hzero) (P.equalities.get i).normal
      rw [hscale, mul_one]
      show √(tailFrom s.iterate.workspace.count _ ⬝ᵥ tailFrom s.iterate.workspace.count _) = 0 ∨
        _ < √(tailFrom s.iterate.workspace.count _ ⬝ᵥ tailFrom s.iterate.workspace.count _)
      rw [hlength]
      refine (hfirst i hzero).imp_left fun hnormal => ?_
      have hentry : (P.equalities.get i).normal.get 0 = 0 := hnormal
      rw [hentry, sq, zero_mul, zero_div, Real.sqrt_zero]
    · left
      have htail : tailFrom s.iterate.workspace.count
          (s.iterate.workspace.aim (P.equalities.get i).normal).image.get = 0 :=
        funext fun k => tailFrom_of_lt (show k.val < _ by have hk : k.val < 1 := k.isLt; omega) _
      show √(tailFrom s.iterate.workspace.count _ ⬝ᵥ tailFrom s.iterate.workspace.count _) = 0
      rw [htail, dotProduct_zero, Real.sqrt_zero]

end Program

/-- The line with the equalities `x = 1` and `x = 2`. -/
noncomputable def Problem.twice : Problem ℝ 1 2 0 :=
  nearest 1 ((Vector.singleton ⟨.singleton 1, 1⟩).push ⟨.singleton 1, 2⟩) (.emptyWithCapacity 0)

theorem Problem.equalityNormal_twice (i : Fin 2) : twice.equalityNormal i = fun _ => 1 := by
  funext k
  rw [Subsingleton.elim k 0]
  fin_cases i <;> rfl

theorem Problem.firstDependent_twice : twice.FirstDependent 1 := by
  constructor
  · rw [equalityNormal_twice]
    exact Submodule.subset_span ⟨0, Fin.zero_lt_one, equalityNormal_twice 0⟩
  · intro j hj
    obtain rfl : j = 0 := Fin.ext (Nat.lt_one_iff.mp hj)
    have hnone : Set.Iio (0 : Fin 2) = ∅ := Set.Iio_bot
    rw [hnone, Set.image_empty, Submodule.span_empty, Submodule.mem_bot, equalityNormal_twice]
    exact fun h => one_ne_zero (congrFun h 0)

namespace Program

/-- Of two equalities with the same normal the second is dependent. -/
theorem dependence_of_solve_twice :
    let program : Program ℝ := ⟨Problem.twice⟩
    program.problem.quadratic.toMatrix.PosDef ∧ program.Guesses none ∧
      (∃ room, program.room none = .ok room) ∧
      program.FoldsClearly 100 none ∧
      (program.solve none 100 none).outcome = .error (.dependentEquality 1) ∧
      ¬ LinearIndependent ℝ program.problem.equalityNormal := by
  intro program
  have hsymmetric : program.problem.quadratic.IsSymmetric := Problem.isSymmetric_nearest _ _
  have hdefinite : program.problem.quadratic.toMatrix.PosDef :=
    Cholesky.posDef_of_factor? hsymmetric
      (Cholesky.factor_eq_ok.mp (Problem.factor_nearest _ _ one_pos))
  have hguess : program.Guesses none := fun g hg => by cases hg
  have hroom : ∃ room, program.room none = .ok room := ⟨_, rfl⟩
  have hclear : program.FoldsClearly 100 none := by
    refine foldsClearly_of_one hsymmetric (fun i _ => .inr ?_) 100 none
    have hentry : Problem.twice.quadratic.entry 0 0 = 1 / 1 * (1 / 1) :=
      congrFun (congrFun (Mat.toMatrix_diagonal fun _ : Fin 1 => (1 : ℝ) / 1 * (1 / 1)) 0) 0
    rw [Problem.equalityNormal_twice, hentry]
    norm_num [Scalar.epsilon_lt_one]
  obtain ⟨hdependent, hfirst⟩ :=
    dependence_of_solve hdefinite hguess hroom (by decide : (0 : Int) ≤ 100) hclear
  have hfailed := (hfirst 1).mpr ⟨Nat.one_lt_two, Problem.firstDependent_twice⟩
  exact ⟨hdefinite, hguess, hroom, hclear, hfailed, hdependent.mp ⟨1, hfailed⟩⟩

end Program

end ActiveSet

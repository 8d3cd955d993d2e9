import ActiveSet.Proofs.Advance
import ActiveSet.Proofs.Heads
import ActiveSet.Proofs.Numbers
import ActiveSet.Proofs.Upkeep
import ActiveSet.Certificate
/-
  Residuals of answers whose data are no numbers

  Success stands for two things: the violation passed the test against the
  tolerance, or there was no candidate left to add. A NaN fails the test and
  is no candidate, so an inequality that cannot be compared is passed over
  like one that holds (`exists_proper_of_unviolated`). The residual of the
  answer then hides it, since the larger of two numbers is the first unless
  the second is greater.

  The residual of an answer and the residuals of the optimality conditions
  are computed apart from each other, the one from `β - a x` and the others
  from `a x - β`. They agree over all extended numbers (`residual_eq`). With
  real normals, a real linear term and real bounds of the equalities every
  point of a solve is real (`isReal_point_of_solve`), whatever the bounds of
  the inequalities are; then the residual of the inequalities is a NaN
  exactly if one of their bounds is (`residuals_of_solve`).
-/

namespace ActiveSet

open Extended

variable {n e m slots : Nat}

/-! ## The two computations of the violation -/

/-- What is missing is the size of what is negative. -/
theorem Extended.maximum_sub_zero (x y : Extended) :
    Scalar.maximum (y - x) 0 = Scalar.abs (Scalar.minimum (x - y) 0) := by
  cases x with
  | real x =>
    cases y with
    | real y =>
      rw [real_sub, real_sub, real_zero, maximum_real, minimum_real, Extended.abs_real,
        abs_of_nonpos (min_le_right _ _), ← neg_sub x y, ← neg_zero, max_neg_neg, neg_zero]
    | bottom => exact congrArg real abs_zero.symm
    | top | nan => rfl
  | top =>
    cases y with
    | real _ | bottom => exact congrArg real abs_zero.symm
    | top | nan => rfl
  | bottom | nan => cases y <;> rfl

namespace Problem

variable (P : Problem Extended n e m) (x : Vector Extended n) (lam : Vector Extended e)
  (mu : Vector Extended m)

/-- The residual of an answer is the larger of the residuals of the constraints. -/
theorem residual_eq : P.residual x = Scalar.larger (P.residuals x lam mu).primalEquality
    (P.residuals x lam mu).primalInequality := by
  have hinequalities : (P.shortfalls x).foldl Scalar.maximum 0 =
      Vec.maxAbs ((P.slacks x).map fun s => Scalar.minimum s 0) := by
    rw [Vec.maxAbs, slacks, shortfalls, Vector.foldl_map, Vector.foldl_map, Vector.foldl_map]
    congr 1
    funext s c
    exact congrArg (Scalar.maximum s) (maximum_sub_zero (Vec.dot c.normal x) c.bound)
  exact congrArg (Scalar.larger (Vec.maxAbs (P.defects x))) hinequalities

end Problem

/-! ## Where a NaN is seen -/

theorem Vec.maxAbs_eq_nan {v : Vector Extended n} : Vec.maxAbs v = nan ↔ ∃ i, v.get i = nan := by
  have hfold (l : List Extended) (a : Extended) :
      l.foldl (fun s x => Scalar.maximum s (Scalar.abs x)) a = nan ↔ a = nan ∨ nan ∈ l := by
    induction l generalizing a with
    | nil => simp
    | cons x l ih =>
      rw [List.foldl_cons, ih, maximum_eq_nan, abs_eq_nan, List.mem_cons, or_assoc,
        eq_comm (a := x)]
  rw [Vec.maxAbs, ← Vector.foldl_toList, hfold, toList_eq_ofFn, List.mem_ofFn]
  exact or_iff_right (real_ne_nan 0)

/-- A sum of numbers that do not reach up to infinity is a NaN only if one of them is. -/
theorem Vec.sum_eq_nan {v : Vector Extended n} (hv : ∀ i, v.get i ≠ top) :
    Vec.sum v = nan ↔ ∃ i, v.get i = nan := by
  have hfold (l : List Extended) (hl : ∀ x ∈ l, x ≠ top) (a : Extended) (ha : a ≠ top) :
      l.foldl (· + ·) a = nan ↔ a = nan ∨ nan ∈ l := by
    induction l generalizing a with
    | nil => simp
    | cons x l ih =>
      have hx := hl x List.mem_cons_self
      rw [List.foldl_cons, ih (fun y hy => hl y (List.mem_cons_of_mem _ hy)) _
        (add_ne_top ha hx), add_eq_nan ha hx, List.mem_cons, or_assoc, eq_comm (a := x)]
  rw [Vec.sum, ← Vector.foldl_toList, toList_eq_ofFn, hfold _ ?_ 0 (real_ne_top 0), List.mem_ofFn]
  · exact or_iff_right (real_ne_nan 0)
  · intro x hx
    obtain ⟨i, rfl⟩ := List.mem_ofFn.mp hx
    exact hv i

namespace Problem

variable {P : Problem Extended n e m} {x : Vector Extended n} {lam : Vector Extended e}
  {mu : Vector Extended m}

/-- The residual of the inequalities is a NaN exactly if a slack is. -/
theorem primalInequality_eq_nan : (P.residuals x lam mu).primalInequality = nan ↔
    ∃ i, (P.inequalities.get i).slack x = nan := by
  show Vec.maxAbs _ = nan ↔ _
  rw [Vec.maxAbs_eq_nan]
  simp only [Vector.get_map, minimum_eq_nan, Iterate.get_slacks]
  exact exists_congr fun i => or_iff_left (real_ne_nan 0)

/-- That of the equalities is one exactly if a defect is. -/
theorem primalEquality_eq_nan : (P.residuals x lam mu).primalEquality = nan ↔
    ∃ i, (P.equalities.get i).slack x = nan := by
  show Vec.maxAbs _ = nan ↔ _
  simp only [Vec.maxAbs_eq_nan, get_defects]

/-- What is compared with the tolerance is a NaN exactly if a slack is. -/
theorem infeasibilityAt_eq_nan : P.infeasibilityAt x = nan ↔
    ∃ i, (P.inequalities.get i).slack x = nan := by
  rw [infeasibilityAt, Vec.sum_eq_nan]
  · simp only [Vector.get_map, minimum_eq_nan, Iterate.get_slacks]
    exact exists_congr fun i => or_iff_left (real_ne_nan 0)
  · intro i
    rw [Vector.get_map]
    cases (P.slacks x).get i with
    | real s =>
      rw [real_zero, minimum_real]
      exact real_ne_top _
    | top => exact real_ne_top 0
    | bottom | nan =>
      intro h
      cases h

end Problem

/-- Whether the normal or the bound has a NaN in it. -/
def Constraint.HasNaN (c : Constraint Extended n) : Prop :=
  c.bound = nan ∨ ∃ k, c.normal.get k = nan

theorem Vec.dot_eq_nan {u v : Vector Extended n} {k : Fin n} (hk : u.get k = nan) :
    Vec.dot u v = nan := by
  have hfold {n : Nat} (f : Fin n → Extended) (a : Extended) (h : a = nan ∨ ∃ k, f k = nan) :
      Fin.foldl n (fun s i => s + f i) a = nan := by
    induction n generalizing a with
    | zero => exact h.resolve_right fun ⟨k, _⟩ => k.elim0
    | succ n ih =>
      rw [Fin.foldl_succ]
      refine ih (fun i => f i.succ) _ ?_
      rcases h with rfl | ⟨k, hk⟩
      · exact .inl (nan_add _)
      · refine Fin.cases (fun hk => .inl ?_) (fun k hk => .inr ⟨k, hk⟩) k hk
        rw [hk, add_nan]
  exact hfold (fun i => u.get i * v.get i) 0 (.inr ⟨k, by rw [hk, nan_mul]⟩)

/-- A constraint with a NaN cannot be measured anywhere. -/
theorem Constraint.HasNaN.slack {c : Constraint Extended n} (h : c.HasNaN)
    (x : Vector Extended n) : c.slack x = nan := by
  rcases h with h | ⟨k, hk⟩
  · rw [Constraint.slack, h, sub_nan]
  · rw [Constraint.slack, Vec.dot_eq_nan hk, nan_sub]

theorem Constraint.slack_eq_nan {c : Constraint Extended n} {x : Vector Extended n}
    (hdot : (Vec.dot c.normal x).IsReal) : c.slack x = nan ↔ c.bound = nan := by
  obtain ⟨r, hr⟩ := hdot
  rw [Constraint.slack, hr]
  cases c.bound with
  | real β =>
    rw [real_sub]
    exact iff_of_false (real_ne_nan _) (real_ne_nan _)
  | top | bottom =>
    refine iff_of_false ?_ ?_ <;>
    · intro h
      cases h
  | nan => exact iff_of_true rfl rfl

/-! ## A solve of real data -/

/-- Whether the terms of a problem that can move a point are real numbers: all of them but the
bounds of the inequalities. A matrix that is factored is real in any case. -/
structure Problem.Plain (P : Problem Extended n e m) : Prop where
  linear : Vec.IsReal P.linear
  equality : ∀ i, Vec.IsReal (P.equalities.get i).normal ∧ (P.equalities.get i).bound.IsReal
  inequality : ∀ i, Vec.IsReal (P.inequalities.get i).normal

/-- Whether the point and the factorization of a saved copy are real. -/
structure Snapshot.IsReal (t : Snapshot Extended n slots) : Prop where
  basis : t.basis.IsReal
  triangle : t.triangle.IsReal
  point : Vec.IsReal t.point

namespace Iterate

variable {P : Problem Extended n e m} {it it' : Iterate Extended n slots m}

theorem isReal_workspace (h : it.snapshot.IsReal) : it.workspace.IsReal :=
  ⟨h.basis, h.triangle⟩

/-- The step onto an equality is real, whether the point can move or not. -/
theorem isReal_equalityStep {ws : Workspace Extended n slots} (hws : ws.IsReal)
    {c : Constraint Extended n} (hnormal : Vec.IsReal c.normal) (hbound : c.bound.IsReal)
    {x : Vector Extended n} (hx : Vec.IsReal x) :
    (equalityStep (ws.aim c.normal) c x).IsReal := by
  unfold equalityStep
  split
  · next hmove =>
    have hcurvature : ((ws.aim c.normal).curvature c).IsReal :=
      (hws.aim hnormal).primal.dot hnormal
    exact (Constraint.isReal_slack hnormal hbound hx).neg.div hcurvature
      (hws.curvature_ne_zero hnormal hmove)
  · exact .zero

theorem Met.isReal {i : Fin e} (h : it.Met P i it') (hP : P.Plain) (hit : it.snapshot.IsReal) :
    it'.snapshot.IsReal := by
  obtain ⟨hnormal, hbound⟩ := hP.equality i
  cases h with
  | @intro c ws ws₁ ws₂ direction step hc hws hdirection hstep hplace hfold =>
    subst hc hws
    have haimed := (isReal_workspace hit).aim hnormal
    have hreal : step.IsReal :=
      hstep ▸ isReal_equalityStep (isReal_workspace hit) hnormal hbound hit.point
    have hplaced : ws₁.IsRealAimed := by
      obtain ⟨_, rfl⟩ := Workspace.place_ok hplace
      exact ⟨⟨haimed.basis, haimed.triangle⟩, haimed.image, haimed.primal⟩
    have hfolded := hplaced.fold hfold
    exact ⟨hfolded.basis, hfolded.triangle, hit.point.add (.scale hreal haimed.primal)⟩

theorem Dropped.isReal {candidate : Fin m} (h : it.Dropped P candidate it') (hP : P.Plain)
    (hit : it.snapshot.IsReal) : it'.snapshot.IsReal := by
  have haimed := (isReal_workspace hit).aim (hP.inequality candidate)
  cases h with
  | @dual c ws direction step label i p hc hws =>
    subst hc hws
    have herased := (Workspace.IsReal.mk haimed.basis haimed.triangle :
      (((it.workspace.aim _).shift step direction)).IsReal).eraseAt p
    exact ⟨herased.basis, herased.triangle, hit.point⟩
  | @partway c ws direction step label i p point hc hws _ hplan _ _ _ hpoint =>
    subst hc hws
    have hreal := Workspace.isReal_step_of_plan (.inr ⟨_, hplan⟩)
    have herased := (Workspace.IsReal.mk haimed.basis haimed.triangle :
      (((it.workspace.aim _).shift step direction)).IsReal).eraseAt p
    refine ⟨herased.basis, herased.triangle, ?_⟩
    show Vec.IsReal point
    rw [hpoint]
    exact hit.point.add (.scale hreal haimed.primal)

theorem Reached.isReal {candidate : Fin m} {accepted : Bool}
    (h : it.Reached P candidate accepted it') (hP : P.Plain) (hit : it.snapshot.IsReal) :
    it'.snapshot.IsReal := by
  have haimed := (isReal_workspace hit).aim (hP.inequality candidate)
  cases h with
  | @intro c ws ws₁ direction step events hc hws hdirection hplan hfold =>
    subst hc hws
    have hreal := Workspace.isReal_step_of_plan (.inl hplan)
    have hfolded := (Workspace.IsRealAimed.mk ⟨haimed.basis, haimed.triangle⟩ haimed.image
      haimed.primal : (((it.workspace.aim _).shift step direction)).IsRealAimed).fold hfold
    exact ⟨hfolded.basis, hfolded.triangle, hit.point.add (.scale hreal haimed.primal)⟩

end Iterate

namespace Machine

variable {P : Problem Extended n e m} {limit : Nat} {tolerance : Extended}
  {start s : Machine Extended n slots m} {history : List (Admission Extended n slots m)}

/-- Every transition of a plain problem leads from real numbers to real numbers. -/
theorem upkeep_isReal (hP : P.Plain) (hstart : start.iterate.snapshot.IsReal) :
    Upkeep P limit tolerance start (fun _ t => t.IsReal) fun _ _ it => it.snapshot.IsReal where
  origin := hstart
  met _ _ _ h hmet := hmet.isReal hP h
  chosen _ _ h _ hplace := by
    obtain ⟨_, rfl⟩ := Workspace.place_ok hplace
    exact ⟨h.basis, h.triangle, h.point⟩
  dropped _ _ _ h hdropped := hdropped.isReal hP h
  added _ _ _ h hreached hit := by
    have hreal := hreached.isReal hP h
    rw [hit]
    exact ⟨hreal.basis, hreal.triangle, hreal.point⟩

/-- Every state of a run that sets out from real numbers has them. -/
theorem isReal_of_course (hP : P.Plain) (hphase : start.phase = .equality 0)
    (hstanding : Standing P tolerance start) (hstart : start.iterate.snapshot.IsReal)
    (h : Course P limit tolerance start history s) : s.iterate.snapshot.IsReal :=
  ((upkeep_isReal hP hstart).holds hphase hstanding h).throughout

end Machine

namespace Program

variable {program : Program Extended} {guess : Option (Guess Extended)} {limit : Int}
  {buffers : Option (Buffers Extended)}
  {answer : Solution Extended program.dimension program.equalityCount program.inequalityCount}

/-- The point of every answer to a plain problem is real. -/
theorem isReal_point_of_solve (hplain : program.problem.Plain)
    (h : (program.solve guess limit buffers).outcome = .ok answer) : Vec.IsReal answer.point := by
  have hunconstrained {L : Mat Extended program.dimension program.dimension}
      (hL : Dense.factor program.problem.quadratic = .ok L) :
      Vec.IsReal (program.problem.unconstrainedPoint L) :=
    (Cholesky.isReal_solve (Cholesky.regular_of_factor hL) hplain.linear).neg
  rcases unconstrained_or_concludes h with
    ⟨L, hL, -, rfl⟩ | ⟨slots, history, last, hconcludes⟩
  · exact hunconstrained hL
  · obtain ⟨L, workspace, hL, -, hcourse⟩ := hconcludes.course
    have hregular := Cholesky.regular_of_factor hL
    have horigin : (program.origin L workspace).iterate.snapshot.IsReal :=
      ⟨hregular.isReal_inverseLower.transpose, .zero, hunconstrained hL⟩
    rw [hconcludes.point_eq]
    exact (Machine.isReal_of_course hplain rfl (Machine.standing_start _ _ _ _ _) horigin
      hcourse).point

/-! ## What is passed over -/

/-- A program without equalities is solved at its unconstrained minimum if no inequality is found
violated there, be it that none can be compared. -/
theorem exists_proper_of_unviolated {α : Type} [Scalar α] {program : Program α}
    {guess : Option (Guess α)} {limit : Int}
    {L : Mat α program.dimension program.dimension}
    (hprepare : program.prepare guess limit = .ok L) (hpivot : Triangular.hasZeroPivot L = false)
    (hequalities : program.equalityCount = 0) (hinequalities : program.inequalityCount ≠ 0)
    (hlimit : 1 ≤ limit)
    (hunviolated : ∀ i, Scalar.lt ((program.problem.inequalities.get i).slack
      (program.problem.unconstrainedPoint L)) 0 = false) :
    ∃ answer, (program.solve guess limit none).outcome = .ok answer ∧ answer.success = true ∧
      answer.point = program.problem.unconstrainedPoint L := by
  have hfactor := factor_of_prepare hprepare
  have hconstraints : program.constraintCount ≠ 0 := by
    unfold constraintCount
    omega
  let workspace : Workspace α program.dimension program.constraintCount := .blank _ _
  let it := (program.origin L workspace).iterate
  have hhead : program.Course limit none [] ⟨it, .head, 0, 1⟩ :=
    ⟨L, workspace, hfactor, rfl,
      Machine.Course.start.next (Machine.step_of_allMet (i := 0) hequalities.le)⟩
  cases hnear : Scalar.le (Scalar.abs (program.problem.infeasibilityAt it.point))
      program.tolerance with
  | true =>
    obtain ⟨answer, hanswer, hstatus, hconcludes⟩ := exists_answer_of_pivots hpivot hprepare
      hconstraints hhead (Machine.stop_of_near hnear)
    exact ⟨answer, hanswer, decide_eq_true hstatus, hconcludes.point_eq⟩
  | false =>
    -- an iteration begins, and ends at once for want of a candidate
    have hbegun := hhead.next (Machine.step_of_begun hnear (show 0 < limit.toNat by omega))
    have hnone : Iterate.mostViolated
        { it.evaluate program.problem with workspace := it.workspace.save it.point it.value }
        (Vector.replicate program.inequalityCount false) = none := by
      refine Iterate.mostViolated_eq_none.mpr fun i => ?_
      have hslack : Scalar.lt ((program.problem.slacks it.point).get i) 0 = false := by
        rw [Iterate.get_slacks]
        exact hunviolated i
      simp only [Iterate.isCandidate, Iterate.evaluate, hslack, Bool.and_false]
    obtain ⟨answer, hanswer, hstatus, hconcludes⟩ := exists_answer_of_pivots hpivot hprepare
      hconstraints hbegun (Machine.stop_of_exhausted hnone (by simp))
    exact ⟨answer, hanswer, decide_eq_true hstatus, hconcludes.point_eq⟩

end Program

/-! ### A ray -/

/-- The number nearest to zero that is at least the bound, as it is given. -/
noncomputable def ProgramInput.ray (bound : Extended) : ProgramInput Extended where
  quadratic := .list [.list [.number 1]]
  linear := .list [.number 0]
  inequalities := ⟨some (.list [.list [.number 1]]), some (.list [.number bound])⟩
  equalities := ⟨none, none⟩
  regions := none

namespace Problem

/-- The problem that this describes. -/
noncomputable def ray (bound : Extended) : Problem Extended 1 0 1 :=
  ofParts (Mat.ofFn fun _ _ => 1) #v[0] [] [⟨#v[1], bound⟩]

variable (bound : Extended)

theorem get_ray (i : Fin 1) : (ray bound).inequalities.get i = ⟨#v[1], bound⟩ := by
  obtain rfl : i = 0 := Subsingleton.elim _ _
  rfl

theorem plain_ray : (ray bound).Plain where
  linear i := by
    obtain rfl : i = 0 := Subsingleton.elim _ _
    exact .zero
  equality i := i.elim0
  inequality i := by
    rw [get_ray]
    intro k
    obtain rfl : k = 0 := Subsingleton.elim _ _
    exact .one

theorem entry_ray (i j : Fin 1) : (ray bound).quadratic.entry i j = real 1 := by
  have hhalf : (Scalar.half : Extended) = real (1 / (1 + 1)) := real_div 1 (by norm_num)
  rw [ray, ofParts, Mat.symmetrized, Mat.entry_ofFn, Mat.entry_ofFn, Mat.entry_ofFn, hhalf,
    real_one, real_add, real_mul]
  norm_num

theorem exists_factor_ray : ∃ L, Dense.factor (ray bound).quadratic = .ok L := by
  have hreal : (ray bound).quadratic.IsReal := fun i j => ⟨1, entry_ray bound i j⟩
  have hpivot : ¬ Scalar.le ((ray bound).quadratic.entry 0 0) 0 = true := by
    rw [entry_ray, real_zero, Extended.le_real, decide_eq_true_eq]
    norm_num
  obtain ⟨L, hL⟩ : ∃ L, Cholesky.factor? (ray bound).quadratic = some L :=
    ⟨_, (if_neg hpivot).trans rfl⟩
  exact ⟨L, Cholesky.factor_eq_ok_of_isReal hreal hL⟩

end Problem

namespace Program

/-- The problem as a program. -/
noncomputable def ray (bound : Extended) : Program Extended := ⟨Problem.ray bound⟩

theorem ofInput_ray (bound : Extended) : ofInput (.ray bound) = .ok (ray bound) := rfl

/-- A bound that is below every number, or is none, is taken as met. -/
theorem exists_proper_ray {bound : Extended} (h : bound = bottom ∨ bound = nan) :
    ∃ answer : Solution Extended 1 0 1, ((ray bound).solve none 100 none).outcome = .ok answer ∧
      answer.success = true := by
  obtain ⟨L, hfactor⟩ := Problem.exists_factor_ray bound
  have hprepare : (ray bound).prepare none 100 = .ok L := hfactor
  have hregular := Cholesky.regular_of_factor hfactor
  have hpoint : Vec.IsReal ((Problem.ray bound).unconstrainedPoint L) :=
    (Cholesky.isReal_solve hregular (Problem.plain_ray bound).linear).neg
  have hunviolated (i : Fin 1) : Scalar.lt (((Problem.ray bound).inequalities.get i).slack
      ((Problem.ray bound).unconstrainedPoint L)) 0 = false := by
    obtain ⟨r, hr⟩ := ((Problem.plain_ray bound).inequality i).dot hpoint
    rw [Constraint.slack, hr, Problem.get_ray]
    rcases h with rfl | rfl <;> rfl
  obtain ⟨answer, hanswer, hsuccess, -⟩ := exists_proper_of_unviolated hprepare
    hregular.hasZeroPivot rfl Nat.one_ne_zero (show (1 : Int) ≤ 100 by decide) hunviolated
  exact ⟨answer, hanswer, hsuccess⟩

/-! ## The residuals of an answer -/

variable {program : Program Extended} {guess : Option (Guess Extended)} {limit : Int}
  {buffers : Option (Buffers Extended)}
  {answer : Solution Extended program.dimension program.equalityCount program.inequalityCount}

/-- The residuals of an answer, over all extended numbers. The residual of the answer is the larger
of those of the constraints. That of the inequalities is a NaN exactly if what was compared with
the tolerance is one, and always with a NaN in an inequality; so is that of the equalities with a
NaN in an equality. To a plain problem the residual of the equalities is real, and that of the
inequalities is a NaN only if the bound of one of them is. -/
theorem residuals_of_solve (h : (program.solve guess limit buffers).outcome = .ok answer) :
    let P := program.problem
    let r := P.residuals answer.point answer.equalityMultipliers answer.inequalityMultipliers
    answer.residual = Scalar.larger r.primalEquality r.primalInequality ∧
      (r.primalInequality = nan ↔ P.infeasibilityAt answer.point = nan) ∧
      ((∃ i, (P.inequalities.get i).HasNaN) → r.primalInequality = nan) ∧
      ((∃ i, (P.equalities.get i).HasNaN) → r.primalEquality = nan) ∧
      (P.Plain → r.primalEquality.IsReal ∧
        (r.primalInequality = nan → ∃ i, (P.inequalities.get i).bound = nan)) := by
  intro P r
  refine ⟨?_, Problem.primalInequality_eq_nan.trans Problem.infeasibilityAt_eq_nan.symm,
    ?_, ?_, fun hplain => ⟨?_, ?_⟩⟩
  · rw [residual_of_solve h]
    exact P.residual_eq _ _ _
  · rintro ⟨i, hi⟩
    exact Problem.primalInequality_eq_nan.mpr ⟨i, hi.slack _⟩
  · rintro ⟨i, hi⟩
    exact Problem.primalEquality_eq_nan.mpr ⟨i, hi.slack _⟩
  · refine Vec.IsReal.maxAbs fun i => ?_
    rw [Problem.get_defects]
    exact Constraint.isReal_slack (hplain.equality i).1 (hplain.equality i).2
      (isReal_point_of_solve hplain h)
  · rw [Problem.primalInequality_eq_nan]
    rintro ⟨i, hi⟩
    exact ⟨i, (Constraint.slack_eq_nan
      ((hplain.inequality i).dot (isReal_point_of_solve hplain h))).mp hi⟩

/-- A bound of minus infinity leaves the residuals numbers. -/
theorem residuals_of_solve_ray : ∃ answer : Solution Extended 1 0 1,
    ((ray bottom).solve none 100 none).outcome = .ok answer ∧ answer.success = true ∧
      let r := (Problem.ray bottom).residuals answer.point answer.equalityMultipliers
        answer.inequalityMultipliers
      r.primalEquality.IsReal ∧ r.primalInequality ≠ nan ∧
        answer.residual = Scalar.larger r.primalEquality r.primalInequality := by
  obtain ⟨answer, hanswer, hsuccess⟩ := exists_proper_ray (.inl rfl)
  obtain ⟨hresidual, -, -, -, hplain⟩ := residuals_of_solve hanswer
  obtain ⟨hequality, hinequality⟩ := hplain (Problem.plain_ray bottom)
  refine ⟨answer, hanswer, hsuccess, hequality, fun hnan => ?_, hresidual⟩
  obtain ⟨i, hi⟩ := hinequality hnan
  have hbound := congrArg Constraint.bound (Problem.get_ray bottom i)
  cases hbound.symm.trans hi

/-- Success is reported for a bound that is a NaN, and then the residual of the inequalities is
one. -/
theorem not_residuals_of_success :
    ¬ ∀ (input : ProgramInput Extended) (program : Program Extended)
        (guess : Option (Guess Extended)) (limit : Int) (buffers : Option (Buffers Extended))
        (answer : Solution Extended program.dimension program.equalityCount
          program.inequalityCount),
      ofInput input = .ok program → (program.solve guess limit buffers).outcome = .ok answer →
        answer.success = true →
          let r := program.problem.residuals answer.point answer.equalityMultipliers
            answer.inequalityMultipliers
          Scalar.isNaN r.primalEquality = false ∧ Scalar.isNaN r.primalInequality = false ∧
            answer.residual = Scalar.larger r.primalEquality r.primalInequality := by
  intro hclaim
  obtain ⟨answer, hanswer, hsuccess⟩ := exists_proper_ray (.inr rfl)
  obtain ⟨-, hinequality, -⟩ :=
    hclaim (.ray nan) (ray nan) none 100 none answer (ofInput_ray nan) hanswer hsuccess
  have hslack : ((Problem.ray nan).inequalities.get 0).slack answer.point = nan := by
    rw [Problem.get_ray]
    exact Constraint.HasNaN.slack (.inl rfl) _
  exact Bool.eq_false_iff.mp hinequality
    (isNaN_iff.mpr (Problem.primalInequality_eq_nan.mpr ⟨_, hslack⟩))

end Program

end ActiveSet

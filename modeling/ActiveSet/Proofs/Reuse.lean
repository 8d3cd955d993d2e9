import ActiveSet.Proofs.Regauge
import ActiveSet.Proofs.Rollback
/-
  A workspace that was used before

  Setting out from a workspace clears a part of it only: the directions, the
  slacks and the saved copy stay as an earlier solve left them, and there may
  be more slots than constraints. None of this has an influence. A solve in
  any workspace that fits and a solve in a blank one are in step in the gauge
  that changes nothing, where no comparison can come out differently
  (`steady_same`), so they have the same outcome (`outcome_of_reuse`).
-/

namespace ActiveSet

variable {α : Type} [Scalar α] {n e m slots slots' : Nat}

/-- Nothing can come out differently in the same units. -/
theorem Machine.steady_same (P : Problem α n e m) (tolerance : α) (s : Machine α n slots m) :
    s.Steady (Gauge.same α) P tolerance tolerance where
  head _ := rfl
  inHand c _ :=
    { moves := by
        show Scalar.lt _ (Scalar.abs (Vec.dot (Vector.map id _) (Vector.map id _))) = _
        rw [Vector.map_id]
        rfl
      turns := fun _ _ => rfl
      accepts := fun _ _ hscale => by cases hscale; rfl }
  step _ _ _ _ _ _ _ _ _ _ _ _ := rfl
  deletions _ _ _ _ _ _ _ _ := rfl

theorem Solution.regauged_same (answer : Solution α n e m) :
    answer.regauged (Gauge.same α) = answer := by
  show { answer with
    equalityMultipliers := answer.equalityMultipliers.map id
    inequalityMultipliers := answer.inequalityMultipliers.map id } = answer
  rw [Vector.map_id, Vector.map_id]

theorem Problem.restates_same (P : Problem α n e m) (L : Mat α n n) :
    P.Restates (Gauge.same α) P L L where
  equalities := rfl
  inequalities := rfl
  pivots := rfl
  inverse := Mat.ext_entry fun i j => (Mat.entry_map id (Triangular.inverseLower L) i j).symm
  point := rfl
  value := rfl

/-- What a workspace holds does not matter, nor how many slots it has. -/
theorem Problem.outcome_congr (P : Problem α n e m) (L : Mat α n n) (limit : Nat)
    (ws : Workspace α n slots) (ws' : Workspace α n slots') (hroom : e + m ≤ slots)
    (hroom' : e + m ≤ slots') :
    (P.solveFrom L limit ws').outcome = (P.solveFrom L limit ws).outcome := by
  rw [outcome_of_restates (P.restates_same L) ws ws' hroom hroom' fun _ _ s _ _ _ _ =>
    s.steady_same P _]
  cases (P.solveFrom L limit ws).outcome with
  | error fault => rfl
  | ok answer => exact congrArg Except.ok answer.regauged_same

namespace Program

variable {program : Program α} {b : Buffers α}

omit [Scalar α] in
/-- Buffers fit a program if they have its dimension and room for its constraints. -/
theorem exists_fit_iff : (∃ ws, b.fit program = .ok ws) ↔
    b.dimension = program.dimension ∧ program.constraintCount ≤ b.slots := by
  unfold Buffers.fit
  constructor
  · rintro ⟨ws, h⟩
    split at h
    · next hdimension =>
      split at h
      · cases h
      · next hslots => exact ⟨hdimension, Nat.not_lt.mp hslots⟩
    · cases h
  · rintro ⟨hdimension, hslots⟩
    rw [dif_pos hdimension, if_neg (Nat.not_lt.mpr hslots)]
    exact ⟨_, rfl⟩

/-- A solve in a workspace that fits has the outcome of a solve in a blank one, whatever the
workspace holds. -/
theorem outcome_of_reuse {ws : Workspace α program.dimension b.slots}
    (hfit : b.fit program = .ok ws) (guess : Option (Guess α)) (limit : Int) :
    (program.solve guess limit (some b)).outcome = (program.solve guess limit none).outcome := by
  have hslots := (exists_fit_iff.mp ⟨ws, hfit⟩).2
  unfold solve
  cases program.prepare guess limit with
  | error fault => rfl
  | ok L =>
    simp only [hfit]
    split
    · rfl
    · exact program.problem.outcome_congr L limit.toNat _ _ (le_refl _) hslots

end Program

/-- Buffers for one variable and two constraints, as some solve might have left them. -/
def Buffers.littered (a : α) : Buffers α where
  workspace :=
    { count := 3
      pivotScale := a
      basis := Mat.ofFn fun _ _ => a
      triangle := Mat.ofFn fun _ _ => a
      image := #v[a]
      primal := #v[a]
      duals := #v[a, a, a]
      active := #v[.inequality 7, .equality 7, .inequality 7]
      slack := #v[a, a]
      saved :=
        { count := 3
          pivotScale := a
          value := a
          point := #v[a]
          basis := Mat.ofFn fun _ _ => a
          triangle := Mat.ofFn fun _ _ => a
          duals := #v[a, a, a]
          active := #v[.equality 7, .inequality 7, .equality 7] } }

namespace Program

/-- In a littered workspace the bound of the wall is met as in a blank one. -/
theorem outcome_of_reuse_wall : ∃ answer : Solution ℝ 1 0 1,
    ((wall 1 1 1).solve none 100 (some (Buffers.littered 5))).outcome = .ok answer ∧
      answer.status = .proper ∧ answer.point.get 0 = 1 := by
  have hfit : (Buffers.littered (5 : ℝ)).fit (wall 1 1 1) =
      .ok (Buffers.littered (5 : ℝ)).workspace := rfl
  obtain ⟨answer, hanswer, hstatus, hpoint⟩ := solve_wall_one
  refine ⟨answer, ?_, hstatus, hpoint⟩
  rw [outcome_of_reuse hfit none 100]
  exact hanswer

end Program

end ActiveSet

import ActiveSet.Proofs.Exact
import ActiveSet.Proofs.Slots
/-
  What limits a step

  `blocking` searches the active inequalities for the one whose dual value
  turns negative first. Over the real numbers it finds the least of the ratios
  `u / r` with `r > 0` (`blocking_le`), and nothing exactly where no dual value
  falls (`blocking_eq_none`, `le_zero_of_blocking_none`).

  Whether the point can move and whether a constraint blocks decide the move:
  `plan_of_stuck`, `plan_of_still`, `plan_of_free` and `plan_of_blocked` are the
  four cases. `plan_eq_stay_iff`, `plan_eq_dual_iff`, `plan_full` and
  `plan_partway` read a move back: a dual step and a partial step end where a
  constraint blocks, the partial one before the full step; a full step is never
  longer than the way to the candidate, but where a constraint blocks it within
  the threshold of the candidate it is shorter (`plan_of_near`); blocked further
  away it is a partial one (`plan_of_far`).
-/

namespace ActiveSet

namespace Workspace

section Blocking

variable {α : Type} [Scalar α] {n slots : Nat} {ws : Workspace α n slots}

/-- Whether a ratio is below what stops a step so far. -/
def isShorter (best : Option (α × Label)) (ratio : α) : Bool :=
  match best with
  | none => Scalar.isBelowTop ratio
  | some (b, _) => Scalar.lt ratio b

/-- What stops a step first, once slot `k` has been looked at too. -/
def closer (ws : Workspace α n slots) (direction : Vector α ws.count)
    (best : Option (α × Label)) (k : Nat) : Option (α × Label) :=
  let r := Vec.extend direction k
  let ratio := ws.dual k / r
  if Scalar.lt 0 r && isShorter best ratio then some (ratio, ws.label k) else best

theorem blocking_eq (direction : Vector α ws.count) (first : Nat) :
    ws.blocking direction first =
      (List.range' first (ws.count - first)).foldl (ws.closer direction) none := rfl

/-- Whether the slot gives the ratio and the name that a step is stopped with. -/
structure Blocks (ws : Workspace α n slots) (direction : Vector α ws.count) (k : Nat) (ratio : α)
    (l : Label) : Prop where
  lt_count : k < ws.count
  label_eq : ws.label k = l
  falls : Scalar.lt 0 (Vec.extend direction k) = true
  ratio_eq : ratio = ws.dual k / Vec.extend direction k

/-- What stops a step is an active constraint at or behind the first slot that is searched. -/
theorem blocks_of_blocking {direction : Vector α ws.count} {first : Nat} {ratio : α} {l : Label}
    (h : ws.blocking direction first = some (ratio, l)) :
    ∃ k, first ≤ k ∧ ws.Blocks direction k ratio l := by
  have hfold (rest : List Nat) (hrest : ∀ k ∈ rest, first ≤ k ∧ k < ws.count)
      (best : Option (α × Label))
      (hbest : ∀ r l, best = some (r, l) → ∃ k, first ≤ k ∧ ws.Blocks direction k r l) :
      ∀ r l, rest.foldl (ws.closer direction) best = some (r, l) →
        ∃ k, first ≤ k ∧ ws.Blocks direction k r l := by
    -- on the slots that are still to be searched
    induction rest generalizing best with
    | nil => exact hbest
    | cons k rest ih =>
      rw [List.foldl_cons]
      refine ih (fun j hj => hrest j (List.mem_cons_of_mem _ hj)) _ fun r l hl => ?_
      obtain ⟨hfirst, hcount⟩ := hrest k List.mem_cons_self
      unfold closer at hl
      dsimp only at hl
      split at hl
      · next hshorter =>
        cases hl
        exact ⟨k, hfirst, hcount, rfl, (Bool.and_eq_true _ _ ▸ hshorter).1, rfl⟩
      -- the slot does not block sooner
      · exact hbest r l hl
  rw [blocking_eq] at h
  refine hfold _ ?_ none (fun _ _ hnone => by cases hnone) ratio l h
  intro k hk
  rw [List.mem_range'_1] at hk
  omega

/-- What a planned move drops is what blocks. -/
theorem blocking_of_plan {direction : Vector α ws.count} {first : Nat} {slack curvature step : α}
    {l : Label}
    (h : ws.plan direction first slack curvature = .dual step l ∨
      ws.plan direction first slack curvature = .partway step l) :
    ∃ ratio, ws.blocking direction first = some (ratio, l) := by
  unfold plan at h
  dsimp only at h
  rcases h with h | h
  · split at h
    · cases h
    · cases h
    · next hblock =>
      cases h
      exact ⟨_, hblock⟩
    · cases h
    · split at h <;> cases h
  · split at h
    · cases h
    · cases h
    · cases h
    · cases h
    · next hblock =>
      split at h
      · cases h
      · cases h
        exact ⟨_, hblock⟩

end Blocking

variable {n slots : Nat} {ws : Workspace ℝ n slots} {direction : Vector ℝ ws.count} {first : Nat}

/-! ## The least ratio -/

/-- Whether a step is stopped no later than at `x`. -/
def StopsBy (best : Option (ℝ × Label)) (x : ℝ) : Prop := ∃ b l, best = some (b, l) ∧ b ≤ x

theorem stopsBy_closer {best : Option (ℝ × Label)} {x : ℝ} (h : StopsBy best x) (k : Nat) :
    StopsBy (ws.closer direction best k) x := by
  obtain ⟨b, l, rfl, hb⟩ := h
  unfold closer
  dsimp only
  split
  · next hshorter =>
    simp only [isShorter, Scalar.lt_real, Bool.and_eq_true, decide_eq_true_eq] at hshorter
    exact ⟨_, _, rfl, hshorter.2.le.trans hb⟩
  · exact ⟨b, l, rfl, hb⟩

theorem stopsBy_closer_self {best : Option (ℝ × Label)} {k : Nat}
    (h : 0 < Vec.extend direction k) :
    StopsBy (ws.closer direction best k) (ws.dual k / Vec.extend direction k) := by
  unfold closer
  dsimp only
  split
  · exact ⟨_, _, rfl, le_refl _⟩
  · next hkept =>
    simp only [Scalar.lt_real, h, decide_true, Bool.true_and] at hkept
    cases best with
    | none => exact absurd rfl hkept
    | some bl => exact ⟨bl.1, bl.2, rfl, not_lt.mp fun hlt => hkept (decide_eq_true hlt)⟩

theorem stopsBy_blocking {k : Nat} (hfirst : first ≤ k) (hk : k < ws.count)
    (h : 0 < Vec.extend direction k) :
    StopsBy (ws.blocking direction first) (ws.dual k / Vec.extend direction k) := by
  have hkeep (rest : List Nat) {best : Option (ℝ × Label)} {x : ℝ} (hbest : StopsBy best x) :
      StopsBy (rest.foldl (ws.closer direction) best) x := by
    induction rest generalizing best with
    | nil => exact hbest
    | cons j rest ih =>
      rw [List.foldl_cons]
      exact ih (stopsBy_closer hbest j)
  have hmem : k ∈ List.range' first (ws.count - first) := by
    rw [List.mem_range'_1]
    omega
  obtain ⟨before, after, hsplit⟩ := List.append_of_mem hmem
  rw [blocking_eq, hsplit, List.foldl_append, List.foldl_cons]
  exact hkeep after (stopsBy_closer_self h)

/-- The blocking ratio is the least one. -/
theorem blocking_le {ratio : ℝ} {l : Label} (h : ws.blocking direction first = some (ratio, l))
    {k : Nat} (hfirst : first ≤ k) (hk : k < ws.count) (hr : 0 < Vec.extend direction k) :
    ratio ≤ ws.dual k / Vec.extend direction k := by
  obtain ⟨b, l', hb, hle⟩ := stopsBy_blocking hfirst hk hr
  rw [h] at hb
  cases hb
  exact hle

/-- Without a blocking constraint no dual value falls. -/
theorem le_zero_of_blocking_none (h : ws.blocking direction first = none) {k : Nat}
    (hfirst : first ≤ k) (hk : k < ws.count) : Vec.extend direction k ≤ 0 := by
  by_contra hr
  obtain ⟨b, l, hb, -⟩ := stopsBy_blocking hfirst hk (not_le.mp hr)
  rw [h] at hb
  cases hb

/-- Where no dual value falls nothing blocks. -/
theorem blocking_eq_none (h : ∀ k, first ≤ k → k < ws.count → Vec.extend direction k ≤ 0) :
    ws.blocking direction first = none := by
  cases hblock : ws.blocking direction first with
  | none => rfl
  | some bl =>
    obtain ⟨k, hfirst, hk, -, hfalls, -⟩ := blocks_of_blocking hblock
    exact absurd (of_decide_eq_true hfalls) (not_lt.mpr (h k hfirst hk))

/-- Where nothing is active nothing blocks. -/
theorem blocking_of_empty (h : ws.count = 0) (direction : Vector ℝ ws.count) (first : Nat) :
    ws.blocking direction first = none :=
  blocking_eq_none fun k _ hk => absurd (h ▸ hk) (Nat.not_lt_zero k)

/-! ## The four moves -/

/-- Whether a step keeps the dual values of the active inequalities from turning negative. -/
def Admits (ws : Workspace ℝ n slots) (direction : Vector ℝ ws.count) (first : Nat) (step : ℝ) :
    Prop :=
  ∀ k, first ≤ k → k < ws.count → 0 < Vec.extend direction k →
    step ≤ ws.dual k / Vec.extend direction k

theorem finiteStep_real (step : Option ℝ) : finiteStep step = step := by
  cases step <;> rfl

variable {slack curvature step : ℝ} {l : Label}

/-- Where nothing can move and nothing blocks there is no move. -/
theorem plan_of_stuck (hstay : ws.canMove = false) (hblock : ws.blocking direction first = none) :
    ws.plan direction first slack curvature = .stay := by
  simp [plan, fullStep, finiteStep_real, hstay, hblock, shorterStep]

/-- Where the point cannot move the dual values do, until a constraint blocks. -/
theorem plan_of_still {b : ℝ} (hstay : ws.canMove = false)
    (hblock : ws.blocking direction first = some (b, l)) :
    ws.plan direction first slack curvature = .dual b l := by
  simp [plan, fullStep, finiteStep_real, hstay, hblock, shorterStep]

/-- Where nothing blocks the step goes all the way. -/
theorem plan_of_free (hmove : ws.canMove = true) (hblock : ws.blocking direction first = none) :
    ws.plan direction first slack curvature = .full (-slack / curvature) := by
  simp [plan, fullStep, finiteStep_real, hmove, hblock, shorterStep]

/-- Where a constraint blocks the step ends at the nearer of the two, and counts as full within the
threshold of the candidate. -/
theorem plan_of_blocked {b : ℝ} (hmove : ws.canMove = true)
    (hblock : ws.blocking direction first = some (b, l)) :
    ws.plan direction first slack curvature =
      if |min b (-slack / curvature) - -slack / curvature| < Scalar.epsilon
        then .full (min b (-slack / curvature)) else .partway (min b (-slack / curvature)) l := by
  simp only [plan, fullStep, finiteStep_real, hmove, hblock, if_true, Option.map_some, shorterStep,
    Scalar.smaller_real, Scalar.lt_real, Scalar.abs_real, decide_eq_true_eq]

/-- There is no move exactly where the point cannot move and nothing blocks. -/
theorem plan_eq_stay_iff : ws.plan direction first slack curvature = .stay ↔
    ws.canMove = false ∧ ws.blocking direction first = none := by
  cases hmove : ws.canMove with
  | false =>
    cases hblock : ws.blocking direction first with
    | none => simp [plan_of_stuck hmove hblock]
    | some bl => simp [plan_of_still hmove hblock]
  | true =>
    cases hblock : ws.blocking direction first with
    | none => simp [plan_of_free hmove hblock]
    | some bl =>
      rw [plan_of_blocked hmove hblock]
      split <;> simp

/-- The dual values move alone exactly where the point cannot move and a constraint blocks. -/
theorem plan_eq_dual_iff : ws.plan direction first slack curvature = .dual step l ↔
    ws.canMove = false ∧ ws.blocking direction first = some (step, l) := by
  cases hmove : ws.canMove with
  | false =>
    cases hblock : ws.blocking direction first with
    | none => simp [plan_of_stuck hmove hblock]
    | some bl => simp [plan_of_still hmove hblock, Prod.ext_iff]
  | true =>
    cases hblock : ws.blocking direction first with
    | none => simp [plan_of_free hmove hblock]
    | some bl =>
      rw [plan_of_blocked hmove hblock]
      split <;> simp

/-- A move of the point is the shorter of the way to the candidate and the blocking ratio. -/
theorem plan_move
    (h : ws.plan direction first slack curvature = .full step ∨
      ws.plan direction first slack curvature = .partway step l) :
    ws.canMove = true ∧ ws.Admits direction first step ∧ step ≤ -slack / curvature ∧
      (step = -slack / curvature ∨ ∃ l', ws.blocking direction first = some (step, l')) := by
  cases hmove : ws.canMove with
  | false =>
    cases hblock : ws.blocking direction first with
    | none => simp [plan_of_stuck hmove hblock] at h
    | some bl => simp [plan_of_still hmove hblock] at h
  | true =>
    refine ⟨rfl, ?_⟩
    cases hblock : ws.blocking direction first with
    | none =>
      obtain rfl : -slack / curvature = step := by simpa [plan_of_free hmove hblock] using h
      refine ⟨?_, le_refl _, .inl rfl⟩
      intro k hfirst hk hr
      exact absurd hr (not_lt.mpr (le_zero_of_blocking_none hblock hfirst hk))
    | some bl =>
      obtain ⟨b, l'⟩ := bl
      -- whether the move counts as full or partial, its length is the smaller of the two
      have hstep : step = min b (-slack / curvature) := by
        rw [plan_of_blocked hmove hblock] at h
        rcases h with h | h <;> (split at h <;> cases h; rfl)
      rw [hstep]
      refine ⟨?_, min_le_right _ _, ?_⟩
      · intro k hfirst hk hr
        exact (min_le_left _ _).trans (blocking_le hblock hfirst hk hr)
      · rcases min_choice b (-slack / curvature) with hmin | hmin
        · exact .inr ⟨l', by rw [hmin]⟩
        · exact .inl hmin

/-- A full step is at most the way to the candidate. -/
theorem plan_full (h : ws.plan direction first slack curvature = .full step) :
    ws.canMove = true ∧ ws.Admits direction first step ∧ step ≤ -slack / curvature ∧
      (step = -slack / curvature ∨ ∃ l, ws.blocking direction first = some (step, l)) :=
  plan_move (l := .inequality 0) (.inl h)

/-- A step that is blocked within the threshold of the candidate counts as full, and stops short
of it. -/
theorem plan_of_near {b : ℝ} (hmove : ws.canMove = true)
    (hblock : ws.blocking direction first = some (b, l)) (hshort : b ≤ -slack / curvature)
    (hnear : -slack / curvature - b < Scalar.epsilon) :
    ws.plan direction first slack curvature = .full b := by
  have habs : |b - -slack / curvature| < Scalar.epsilon := by
    rw [abs_sub_comm, abs_of_nonneg (sub_nonneg.mpr hshort)]
    exact hnear
  rw [plan_of_blocked hmove hblock, min_eq_left hshort, if_pos habs]

/-- A step that is blocked further from the candidate than the threshold is a partial one. -/
theorem plan_of_far {b : ℝ} (hmove : ws.canMove = true)
    (hblock : ws.blocking direction first = some (b, l))
    (hfar : Scalar.epsilon ≤ -slack / curvature - b) :
    ws.plan direction first slack curvature = .partway b l := by
  have hshort : b ≤ -slack / curvature := by linarith [Scalar.epsilon_pos]
  have habs : ¬ |b - -slack / curvature| < Scalar.epsilon := by
    rw [abs_sub_comm, abs_of_nonneg (sub_nonneg.mpr hshort)]
    exact not_lt.mpr hfar
  rw [plan_of_blocked hmove hblock, min_eq_left hshort, if_neg habs]

/-- A partial step ends where a constraint blocks, clearly before the candidate is tight. -/
theorem plan_partway (h : ws.plan direction first slack curvature = .partway step l) :
    ws.blocking direction first = some (step, l) ∧ step < -slack / curvature := by
  obtain ⟨hmove, -, -, -⟩ := plan_move (.inr h)
  cases hblock : ws.blocking direction first with
  | none => simp [plan_of_free hmove hblock] at h
  | some bl =>
    obtain ⟨b, l'⟩ := bl
    rw [plan_of_blocked hmove hblock] at h
    split at h
    · cases h
    · next hfar =>
      cases h
      have hne : min b (-slack / curvature) ≠ -slack / curvature := fun heq => by
        rw [heq, sub_self, abs_zero] at hfar
        exact hfar Scalar.epsilon_pos
      have hlt : b < -slack / curvature := by
        by_contra hge
        exact hne (min_eq_right (not_lt.mp hge))
      rw [min_eq_left hlt.le]
      exact ⟨rfl, hlt⟩

end Workspace

end ActiveSet

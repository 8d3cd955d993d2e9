import ActiveSet.Proofs.Direction
/-
  What the active constraints are worth at the point

  A constraint lands somewhere when it is folded in: an equality on its bound
  if the point could move, where it was if not; an inequality at its bound or
  short of it (`Landed`). From then on it keeps that slack, as long as it is
  active and its own fold skipped nothing but zeros, since the point then only
  moves along it (`Tight`). Whether the equalities hold at the end is decided
  by how each of them landed; how far the inequalities are violated after the
  last of them was chosen, by how the active ones did.
-/

open Matrix

namespace ActiveSet

variable {n e m slots : Nat}

theorem Constraint.slack_move (c : Constraint ℝ n) (x z : Vector ℝ n) (step : ℝ) :
    c.slack (Vec.add x (Vec.scale step z)) = c.slack x + step * (c.normal.get ⬝ᵥ z.get) := by
  simp only [Constraint.slack, Vec.dot_eq, Vec.get_add, Vec.get_scale, dotProduct_add,
    dotProduct_smul, smul_eq_mul]
  ring

/-- The squared length `z · z` of the direction towards the constraint in hand. -/
def Machine.directionSquare {α : Type} [Scalar α] (P : Problem α n e m)
    (s : Machine α n slots m) : α :=
  match s.inHand P with
  | some c =>
    let z := (s.iterate.workspace.aim c.normal).primal
    Vec.dot z z
  | none => 0

/-- Where a constraint is when it has been folded in. -/
structure Landed (P : Problem ℝ n e m) (a : Admission ℝ n slots m) : Prop where
  moved : a.before.directionSquare P ≠ 0
  equality : ∀ i : Fin e, a.label = .equality i →
    (P.equalities.get i).slack a.after.iterate.point =
      if Scalar.epsilon < a.before.directionSquare P then 0
      else (P.equalities.get i).slack a.before.iterate.point
  inequality : ∀ i : Fin m, a.label = .inequality i →
    (P.inequalities.get i).slack a.after.iterate.point ≤ 0

/-- Whether a constraint has the slack that it landed with, provided that its own fold left nothing
uncleared. -/
def Kept (P : Problem ℝ n e m) (history : List (Admission ℝ n slots m)) (x : Vector ℝ n)
    (l : Label) : Prop :=
  ∀ c a, P.constraint? l = some c → ownFold history l = some a →
    uncleared (a.before.foldPairs P) = 0 → c.slack x = c.slack a.after.iterate.point

/-- What the active constraints are worth at a snapshot. -/
structure Tight (P : Problem ℝ n e m) (history : List (Admission ℝ n slots m))
    (t : Snapshot ℝ n slots) : Prop where
  landed : ∀ a ∈ history, Landed P a
  kept : ∀ k < t.count, Kept P history t.point (t.label k)

/-- A move of the point keeps the slack of an active constraint whose own fold left nothing
uncleared. -/
theorem Columns.kept_move {P : Problem ℝ n e m} {history : List (Admission ℝ n slots m)}
    {it : Iterate ℝ n slots m} (h : Columns P history it.snapshot) {k : Nat}
    (hk : k < it.workspace.count) (hkept : Kept P history it.point (it.workspace.label k))
    (v : Vector ℝ n) (step : ℝ) :
    Kept P history (Vec.add it.point (Vec.scale step (it.workspace.aim v).primal))
      (it.workspace.label k) := by
  intro c a hc ha hexact
  have horthogonal : P.normal (it.workspace.label k) ⬝ᵥ (it.workspace.aim v).primal.get = 0 :=
    h.factored.normal_dot_primal hk ((residue_of_ownFold ha).trans hexact) v
  rw [Problem.normal_of_constraint? hc] at horthogonal
  rw [Constraint.slack_move, horthogonal, mul_zero, add_zero]
  exact hkept c a hc ha hexact

theorem Kept.cons {P : Problem ℝ n e m} {history : List (Admission ℝ n slots m)}
    {x : Vector ℝ n} {l : Label} (h : Kept P history x l) {a : Admission ℝ n slots m}
    (hne : l ≠ a.label) : Kept P (a :: history) x l := by
  intro c b hc hb hexact
  rw [ownFold_cons_of_ne hne] at hb
  exact h c b hc hb hexact

/-- A constraint that was folded in just now has the slack that it landed with. -/
theorem kept_cons_self (P : Problem ℝ n e m) (history : List (Admission ℝ n slots m))
    (a : Admission ℝ n slots m) : Kept P (a :: history) a.after.iterate.point a.label := by
  intro c b _ hb _
  rw [ownFold_cons_self rfl] at hb
  cases hb
  rfl

/-! ## Along the course of a solve -/

namespace Machine

variable {P : Problem ℝ n e m} {limit : Nat} {tolerance : ℝ}
  {history : List (Admission ℝ n slots m)} {s s' : Machine ℝ n slots m} {candidate : Fin m}

theorem directionSquare_of_inHand {c : Constraint ℝ n} (h : s.inHand P = some c) :
    s.directionSquare P =
      Vec.dot (s.iterate.workspace.aim c.normal).primal
        (s.iterate.workspace.aim c.normal).primal := by
  simp only [directionSquare, h]

/-- An equality that is folded in lands on its bound, unless the point did not move. -/
theorem landed_of_met {i : Fin e} (hphase : s.phase = .equality i)
    (hcolumns : Columns P history s.iterate.snapshot) (h : s.iterate.Met P i s'.iterate) :
    Landed P ⟨.equality i, s, s'⟩ := by
  have hsquare := directionSquare_of_inHand (inHand_of_equality (P := P) hphase)
  generalize hit : s'.iterate = it' at h
  cases h with
  | @intro c ws ws₁ ws₂ direction step hc hws hdirection hstep hplace hfold =>
    subst hws
    rw [← hc] at hsquare
    obtain ⟨hroom, hws₁⟩ := Workspace.place_ok hplace
    -- the fold was accepted, so there is a direction, if maybe too short a one to move along
    have hne : (s.iterate.workspace.aim c.normal).primal.get ≠ 0 :=
      hcolumns.factored.primal_ne_zero_of_fold (by rw [hws₁]; rfl) (by rw [hws₁]; rfl)
        (by rw [hws₁]; rfl) hfold
    have hcurvature : 0 < (s.iterate.workspace.aim c.normal).curvature c :=
      hcolumns.factored.curvature_pos hne
    have hrise : c.normal.get ⬝ᵥ (s.iterate.workspace.aim c.normal).primal.get =
        (s.iterate.workspace.aim c.normal).curvature c := by
      rw [Workspace.curvature, Vec.dot_eq, dotProduct_comm]
    refine ⟨?_, ?_, fun j hj => by cases hj⟩
    · show s.directionSquare P ≠ 0
      rw [hsquare]
      exact Workspace.dot_primal_ne_zero hne
    · intro j hj
      cases Fin.ext (Label.equality.inj hj)
      show (P.equalities.get i).slack s'.iterate.point =
        if Scalar.epsilon < s.directionSquare P then 0 else _
      rw [hit, hsquare, ← hc]
      show c.slack (Vec.add _ (Vec.scale step _)) = _
      rw [Constraint.slack_move, hrise, hstep, Iterate.equalityStep]
      -- the step is the one that takes up the slack, or none
      by_cases hmove : (s.iterate.workspace.aim c.normal).canMove = true
      · rw [if_pos hmove, if_pos ((Workspace.canMove_iff _).mp hmove),
          div_mul_cancel₀ _ hcurvature.ne', add_neg_cancel]
      · rw [if_neg hmove, if_neg fun hlt => hmove ((Workspace.canMove_iff _).mpr hlt), zero_mul,
          add_zero]

/-- An inequality that is folded in lands at its bound or short of it. -/
theorem landed_of_added {it' : Iterate ℝ n slots m} {isActive : Vector Bool m}
    (hinHand : s.inHand P = some (P.inequalities.get candidate))
    (hadds : s.iterate.Adds P tolerance candidate)
    (hcolumns : Columns P history s.iterate.snapshot)
    (h : s.iterate.Reached P candidate true it') (hit : s'.iterate = { it' with isActive }) :
    Landed P ⟨.inequality candidate, s, s'⟩ := by
  have hsquare := directionSquare_of_inHand hinHand
  cases h with
  | @intro c ws ws₁ direction step events hc hws hdirection hplan hfold =>
    subst hws
    rw [← hc] at hsquare
    obtain ⟨hmove, -, hle, -⟩ := Workspace.plan_full hplan
    have hne := Workspace.primal_ne_zero_of_canMove hmove
    have hcurvature : 0 < (s.iterate.workspace.aim c.normal).curvature c :=
      hcolumns.factored.curvature_pos hne
    refine ⟨?_, fun j hj => (by cases hj), ?_⟩
    · show s.directionSquare P ≠ 0
      rw [hsquare]
      exact Workspace.dot_primal_ne_zero hne
    · intro j hj
      cases Fin.ext (Label.inequality.inj hj)
      show (P.inequalities.get candidate).slack s'.iterate.point ≤ 0
      rw [hit, ← hc]
      show c.slack (Vec.add _ (Vec.scale step _)) ≤ 0
      rw [Constraint.slack_move, dotProduct_comm, ← Vec.dot_eq]
      rw [hadds.measured, ← hc, le_div_iff₀ hcurvature] at hle
      have hrise : step * Vec.dot (s.iterate.workspace.aim c.normal).primal c.normal ≤
          -(c.slack s.iterate.point) := hle
      linarith

/-- While constraints are dropped for a candidate the others keep their slacks. -/
theorem kept_of_dropped {it it' : Iterate ℝ n slots m} (hadds : it.Adds P tolerance candidate)
    (hcolumns : Columns P history it.snapshot)
    (hkept : ∀ k < it.workspace.count, Kept P history it.point (it.workspace.label k))
    (h : it.Dropped P candidate it') :
    ∀ k < it'.workspace.count, Kept P history it'.point (it'.workspace.label k) := by
  cases h with
  | @dual c ws direction step label i p hc hws hdirection hplan hlabel hp hroom =>
    subst hws
    obtain ⟨-, hpc, -, -⟩ := hadds.dropped_slot rfl (.inl hplan) hlabel hp
    intro k hk
    change k < it.workspace.count - 1 at hk
    have hmoved : (((it.workspace.aim c.normal).shift step direction).eraseAt p).label k =
        it.workspace.label (skip p k) :=
      Workspace.label_eraseAt hroom (show k < it.workspace.count by omega)
    -- the point stays, and the others have moved up by one slot at most
    have hskip := skip_le p k
    show Kept P history it.point _
    rw [hmoved]
    exact hkept _ (by omega)
  | @partway c ws direction step label i p point hc hws hdirection hplan hlabel hp hroom hpoint =>
    subst hws hpoint
    intro k hk
    change k < it.workspace.count - 1 at hk
    have hmoved : (((it.workspace.aim c.normal).shift step direction).eraseAt p).label k =
        it.workspace.label (skip p k) :=
      Workspace.label_eraseAt hroom (show k < it.workspace.count by omega)
    have hskip := skip_le p k
    show Kept P history (Vec.add it.point (Vec.scale step _)) _
    rw [hmoved]
    exact hcolumns.kept_move (by omega) (hkept _ (by omega)) c.normal step

/-- When an equality is folded in the others keep their slacks. -/
theorem kept_of_met {i : Fin e} (hcount : s.iterate.workspace.count = i)
    (hseated : s.iterate.Seated i) (hcolumns : Columns P history s.iterate.snapshot)
    (hkept : ∀ k < s.iterate.workspace.count,
      Kept P history s.iterate.point (s.iterate.workspace.label k))
    (h : s.iterate.Met P i s'.iterate) :
    ∀ k < s'.iterate.workspace.count,
      Kept P (⟨.equality i, s, s'⟩ :: history) s'.iterate.point
        (s'.iterate.workspace.label k) := by
  have hseating := hseated.seating
  rw [hcount] at hseating
  obtain ⟨-, hgrown, -, hlabel⟩ := h.names
  intro k hk
  rw [hgrown] at hk
  rw [hlabel]
  rcases Nat.lt_succ_iff_lt_or_eq.mp hk with hlt | rfl
  · -- the point moves along the older constraints
    have hmoved : Kept P history s'.iterate.point (s.iterate.workspace.label k) := by
      generalize s'.iterate = it' at h
      cases h with
      | @intro c ws ws₁ ws₂ direction step hc hws hdirection hstep hplace hfold =>
        subst hws
        exact hcolumns.kept_move hlt (hkept k hlt) c.normal step
    rw [if_neg (Nat.ne_of_lt hlt)]
    exact hmoved.cons (hseating.ne_equality (le_refl _) (by omega))
  · rw [if_pos rfl]
    exact kept_cons_self P history ⟨.equality i, s, s'⟩

/-- When the candidate is folded in the others keep their slacks. -/
theorem kept_of_added {it' : Iterate ℝ n slots m} {isActive : Vector Bool m}
    (hadds : s.iterate.Adds P tolerance candidate)
    (hcolumns : Columns P history s.iterate.snapshot)
    (hkept : ∀ k < s.iterate.workspace.count,
      Kept P history s.iterate.point (s.iterate.workspace.label k))
    (h : s.iterate.Reached P candidate true it') (hit : s'.iterate = { it' with isActive }) :
    ∀ k < it'.workspace.count,
      Kept P (⟨.inequality candidate, s, s'⟩ :: history) it'.point (it'.workspace.label k) := by
  obtain ⟨hlabel, -, -, hcount⟩ := h.keeps
  intro k hk
  rw [hcount rfl] at hk
  rw [hlabel]
  rcases Nat.lt_succ_iff_lt_or_eq.mp hk with hlt | rfl
  · have hmoved : Kept P history it'.point (s.iterate.workspace.label k) := by
      cases h with
      | @intro c ws ws₁ direction step events hc hws hdirection hplan hfold =>
        subst hws
        exact hcolumns.kept_move hlt (hkept k hlt) c.normal step
    exact hmoved.cons (hadds.seating.ne_of_inactive hadds.inactive hlt)
  · rw [hadds.label_eq]
    have hself := kept_cons_self P history ⟨.inequality candidate, s, s'⟩
    rw [hit] at hself
    exact hself

/-- The slacks of the active constraints are kept from a state in which nothing is active. -/
theorem upkeep_tight {start : Machine ℝ n slots m} (hphase : start.phase = .equality 0)
    (hstanding : Standing P tolerance start) (hcolumns : Columns P [] start.iterate.snapshot) :
    Upkeep P limit tolerance start (Tight P) fun history _ it => Tight P history it.snapshot where
  origin := by
    have hnone := hstanding.count_eq_zero hphase
    constructor
    · intro a ha
      exact absurd ha List.not_mem_nil
    · intro k hk
      change k < start.iterate.workspace.count at hk
      omega
  met {history s s' i} hcourse hs hequality h hmet := by
    have hnow := columns_of_course hphase hstanding hcolumns hcourse
    have hlanded := landed_of_met hequality hnow hmet
    rw [Standing, hequality] at hs
    obtain ⟨-, hcount, hseated⟩ := hs
    exact ⟨List.forall_mem_cons.mpr ⟨hlanded, h.landed⟩,
      kept_of_met hcount hseated hnow h.kept hmet⟩
  chosen {history s excluded candidate ws events} _ _ h _ hplace := by
    obtain ⟨hroom, hws⟩ := Workspace.place_ok hplace
    refine ⟨h.landed, ?_⟩
    intro k hk
    -- the candidate's name is written past the last active slot
    change k < ws.count at hk
    rw [hws] at hk
    change k < s.iterate.workspace.count at hk
    show Kept P history s.iterate.point (ws.label k)
    rw [Workspace.label_place hplace, if_neg (Nat.ne_of_lt hk)]
    exact h.kept k hk
  dropped {history s it' candidate} hcourse _ hadds h hdropped :=
    ⟨h.landed, kept_of_dropped hadds (columns_of_course hphase hstanding hcolumns hcourse) h.kept
      hdropped⟩
  added {history s s' it' candidate isActive} hcourse hinHand hadds h hreached hit := by
    have hnow := columns_of_course hphase hstanding hcolumns hcourse
    have hlanded := landed_of_added hinHand hadds hnow hreached hit
    refine ⟨List.forall_mem_cons.mpr ⟨hlanded, h.landed⟩, ?_⟩
    intro k hk
    rw [hit] at hk
    rw [Iterate.label_snapshot, hit]
    show Kept P _ it'.point (it'.workspace.label k)
    exact kept_of_added hadds hnow h.kept hreached hit k hk

end Machine

namespace Program

variable {program : Program ℝ} {limit : Int} {buffers : Option (Buffers ℝ)}
  {history : List (Admission ℝ program.dimension slots program.inequalityCount)}

theorem tight_of_course (hsymmetric : program.problem.quadratic.IsSymmetric)
    {s : Machine ℝ program.dimension slots program.inequalityCount}
    (h : program.Course limit buffers history s) :
    Tight program.problem history s.iterate.snapshot := by
  obtain ⟨L, workspace, hfactor, -, hcourse⟩ := h
  have hstanding := Machine.standing_start program.problem program.tolerance
    (Triangular.inverseLower L) (program.problem.unconstrainedPoint L) workspace
  have hholds := (Machine.upkeep_tight rfl hstanding
    (columns_origin hsymmetric hfactor workspace)).holds rfl hstanding hcourse
  exact hholds.throughout

/-- Every active constraint has an own fold, and the slack it landed with if that fold skipped
nothing but zeros. -/
theorem exists_landing (hsymmetric : program.problem.quadratic.IsSymmetric)
    {s : Machine ℝ program.dimension slots program.inequalityCount}
    (h : program.Course limit buffers history s) {k : Nat} (hk : k < s.iterate.workspace.count)
    {c : Constraint ℝ program.dimension}
    (hc : program.problem.constraint? (s.iterate.workspace.label k) = some c) :
    ∃ a, ownFold history (s.iterate.workspace.label k) = some a ∧ Landed program.problem a ∧
      (SkipsOnlyZeros (a.before.foldPairs program.problem) →
        c.slack s.iterate.point = c.slack a.after.iterate.point) := by
  obtain ⟨a, ha⟩ := (columns_of_course hsymmetric h).folded k hk
  have htight := tight_of_course hsymmetric h
  refine ⟨a, ha, htight.landed a (List.mem_of_find?_eq_some ha), fun hzeros => ?_⟩
  exact htight.kept k hk c a hc ha (uncleared_eq_zero hzeros)

end Program

end ActiveSet

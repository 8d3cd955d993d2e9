import ActiveSet.Proofs.Gauge
import ActiveSet.Proofs.Plan
/-
  Workspaces that differ in nothing a solve looks at

  Two workspaces are alike in a gauge if they have the same active constraints
  in the same slots, with the factorization and the dual values of the one in
  the units of the other (`Workspace.Alike`). Their numbers of slots may differ,
  and so may all that is left over in them: the image, the primal direction,
  the slacks and the saved copy of whatever was computed before.

  Aiming at a normal overwrites the image and the direction, and makes these
  alike too (`AlikeAimed`). From there every operation of a pass leads from
  alike workspaces to alike ones, as long as the comparisons with a fixed
  threshold come out the same in both gauges. `Workspace.Steady` and
  `Workspace.SteadyStep` list those comparisons.
-/

namespace ActiveSet

variable {α : Type} [Scalar α] {n slots slots' : Nat}

/-- The same factorization in the units of two gauges. -/
structure Factors.Alike (g : Gauge α) (f f' : Factors α n) : Prop where
  count : f'.count = f.count
  scale : g.Scales f.pivotScale f'.pivotScale
  basis : f'.basis = f.basis.map g.image
  triangle : f'.triangle = f.triangle.map g.image

/-- Saved copies of the same state in the units of two gauges. -/
structure Snapshot.Alike (g : Gauge α) (t : Snapshot α n slots) (t' : Snapshot α n slots') :
    Prop where
  factors : t.factors.Alike g t'.factors
  label : ∀ k, t'.label k = t.label k
  dual : ∀ k, t'.dual k = g.dual (t.dual k)
  point : t'.point = t.point
  value : t'.value = g.dual t.value

namespace Workspace

/-- Workspaces with the same active constraints, in the units of two gauges. -/
structure Alike (g : Gauge α) (ws : Workspace α n slots) (ws' : Workspace α n slots') : Prop where
  factors : ws.factors.Alike g ws'.factors
  label : ∀ k, ws'.label k = ws.label k
  dual : ∀ k, ws'.dual k = g.dual (ws.dual k)

/-- Alike workspaces that are aimed at the same normal. -/
structure AlikeAimed (g : Gauge α) (ws : Workspace α n slots) (ws' : Workspace α n slots') : Prop
    extends Alike g ws ws' where
  image : ws'.image = ws.image.map g.image
  primal : ws'.primal = ws.primal.map g.primal

/-- The entry of the cleared image that a fold would put on the diagonal. -/
def pivot (ws : Workspace α n slots) : α :=
  Vec.extend (clearTail ws.count (n - 1) (ws.image, ws.basis)).1 ws.count

/-- Whether the comparisons that are made with a normal in hand, and those of its fold, come out the
same in another gauge. -/
structure Steady (g : Gauge α) (ws : Workspace α n slots) : Prop where
  moves : Scalar.lt Scalar.epsilon (Scalar.abs
    (Vec.dot (ws.primal.map g.primal) (ws.primal.map g.primal))) = ws.canMove
  turns : g.TurnsAlike ws.foldPairs
  accepts : ws.count < n → ∀ r, g.Scales ws.pivotScale r →
    Scalar.le (Scalar.abs (g.image ws.pivot)) (Scalar.epsilon * r) =
      Scalar.le (Scalar.abs ws.pivot) (Scalar.epsilon * ws.pivotScale)

/-- Whether a step that is blocked counts as full in another gauge exactly if it does in this
one. -/
def SteadyStep (g : Gauge α) (ws : Workspace α n slots) (first : Nat) (slack curvature : α) :
    Prop :=
  ∀ (direction : Vector α ws.count) (step full : α), ws.dualDirection = .ok direction →
    finiteStep (shorterStep ((ws.blocking direction first).map Prod.fst)
      (ws.fullStep slack curvature)) = some step →
    finiteStep (ws.fullStep slack curvature) = some full →
      Scalar.lt (Scalar.abs (g.dual step - g.dual full)) Scalar.epsilon =
        Scalar.lt (Scalar.abs (step - full)) Scalar.epsilon

variable {g : Gauge α} {ws : Workspace α n slots} {ws' : Workspace α n slots'}

theorem Alike.count (h : Alike g ws ws') : ws'.count = ws.count := h.factors.count

/-- What was computed before does not matter to the aim. -/
theorem Alike.aim (h : Alike g ws ws') (v : Vector α n) : AlikeAimed g (ws.aim v) (ws'.aim v) := by
  have hbasis : ws'.basis = ws.basis.map g.image := h.factors.basis
  have himage : (ws'.aim v).image = (ws.aim v).image.map g.image := by
    show ws'.basis.transpose.mulVec v = (ws.basis.transpose.mulVec v).map g.image
    rw [hbasis, Mat.transpose_map, g.mulVec_image]
  refine ⟨⟨⟨h.count, h.factors.scale, hbasis, h.factors.triangle⟩, h.label, h.dual⟩, himage, ?_⟩
  show combineFrom ws'.basis (ws'.aim v).image ws'.count = _
  rw [himage, hbasis, h.count, g.combineFrom_image]
  rfl

namespace AlikeAimed

variable (h : AlikeAimed g ws ws')
include h

theorem curvature_eq (c : Constraint α n) : ws'.curvature c = g.primal (ws.curvature c) := by
  rw [curvature, h.primal, g.dot_primal, curvature]

theorem canMove_eq (hsteady : ws.Steady g) : ws'.canMove = ws.canMove := by
  rw [← hsteady.moves, canMove, h.primal]

/-- The dual direction is the same in every gauge. -/
theorem dualDirection_cases :
    (ws.dualDirection = .error .singularTriangle ∧
        ws'.dualDirection = .error .singularTriangle) ∨
      ∃ direction direction', ws.dualDirection = .ok direction ∧
        ws'.dualDirection = .ok direction' ∧
          ∀ k, Vec.extend direction' k = Vec.extend direction k := by
  have hcount := h.count
  have htriangle : ws'.triangle = ws.triangle.map g.image := h.factors.triangle
  have himage := h.image
  clear h
  obtain ⟨count, _, _, triangle, image, _, _, _, _, _⟩ := ws
  obtain ⟨count', _, _, triangle', image', _, _, _, _, _⟩ := ws'
  simp only at hcount htriangle himage
  subst hcount htriangle himage
  have hhead : (Vector.ofFn fun i : Fin count' => Vec.extend (image.map g.image) i) =
      (Vector.ofFn fun i : Fin count' => Vec.extend image i).map g.image := by
    rw [Vec.map_ofFn]
    simp only [Vec.extend_map _ g.image_zero]
  simp only [dualDirection, Mat.leading_map _ g.image_zero, g.hasZeroPivot_image, hhead,
    g.solveUpper_image]
  split
  · exact .inl ⟨rfl, rfl⟩
  · exact .inr ⟨_, _, rfl, rfl, fun _ => rfl⟩

section Direction

variable {direction : Vector α ws.count} {direction' : Vector α ws'.count}
  (hsame : ∀ k, Vec.extend direction' k = Vec.extend direction k)
include hsame

theorem closer_eq (best : Option (α × Label)) (k : Nat) :
    ws'.closer direction' (best.map fun b => (g.dual b.1, b.2)) k =
      (ws.closer direction best k).map fun b => (g.dual b.1, b.2) := by
  have hratio : ws'.dual k / Vec.extend direction' k =
      g.dual (ws.dual k / Vec.extend direction k) := by
    rw [hsame, h.dual, g.dual_div]
  have hshorter : isShorter (best.map fun b => (g.dual b.1, b.2))
      (ws'.dual k / Vec.extend direction' k) =
        isShorter best (ws.dual k / Vec.extend direction k) := by
    rw [hratio]
    cases best with
    | none => exact g.isBelowTop_dual _
    | some b => exact g.lt_dual _ _
  simp only [closer, hshorter]
  rw [hsame, h.label]
  split
  · rw [← hsame, hratio, hsame]
    rfl
  · rfl

/-- The same constraint blocks, after the same step. -/
theorem blocking_eq_map (first : Nat) :
    ws'.blocking direction' first =
      (ws.blocking direction first).map fun b => (g.dual b.1, b.2) := by
  have hfold (l : List Nat) (best : Option (α × Label)) :
      l.foldl (ws'.closer direction') (best.map fun b => (g.dual b.1, b.2)) =
        (l.foldl (ws.closer direction) best).map fun b => (g.dual b.1, b.2) := by
    induction l generalizing best with
    | nil => rfl
    | cons k l ih => rw [List.foldl_cons, h.closer_eq hsame, ih, List.foldl_cons]
  rw [blocking_eq, blocking_eq, h.count]
  exact hfold _ none

end Direction

theorem fullStep_eq (hsteady : ws.Steady g) (slack curvature : α) :
    ws'.fullStep slack (g.primal curvature) = (ws.fullStep slack curvature).map g.dual := by
  rw [fullStep, fullStep, h.canMove_eq hsteady, g.div_primal]
  split <;> rfl

end AlikeAimed

end Workspace

namespace Gauge

variable (g : Gauge α)

theorem shorterStep_dual (a b : Option α) :
    shorterStep (a.map g.dual) (b.map g.dual) = (shorterStep a b).map g.dual := by
  cases a with
  | none =>
    cases b with
    | none => rfl
    | some b =>
      simp only [shorterStep, Option.map_none, Option.map_some, g.isBelowTop_dual]
      split <;> rfl
  | some a =>
    cases b with
    | none => rfl
    | some b =>
      simp only [shorterStep, Scalar.smaller, Option.map_some, g.lt_dual]
      split <;> rfl

theorem finiteStep_dual (a : Option α) :
    finiteStep (a.map g.dual) = (finiteStep a).map g.dual := by
  cases a with
  | none => rfl
  | some a =>
    simp only [finiteStep, Option.map_some, Option.filter_some, g.isFinite_dual]
    split <;> rfl

/-- The move in the other units. -/
def move : Move α → Move α
  | .stay => .stay
  | .dual step l => .dual (g.dual step) l
  | .full step => .full (g.dual step)
  | .partway step l => .partway (g.dual step) l

end Gauge

namespace Workspace

variable {g : Gauge α} {ws : Workspace α n slots} {ws' : Workspace α n slots'}

/-- The same move is planned. -/
theorem AlikeAimed.plan_eq (h : AlikeAimed g ws ws') (hsteady : ws.Steady g)
    {direction : Vector α ws.count} {direction' : Vector α ws'.count}
    (hdirection : ws.dualDirection = .ok direction)
    (hsame : ∀ k, Vec.extend direction' k = Vec.extend direction k) {first : Nat}
    {slack curvature : α} (hstep : ws.SteadyStep g first slack curvature) :
    ws'.plan direction' first slack (g.primal curvature) =
      g.move (ws.plan direction first slack curvature) := by
  have hratio : ((ws.blocking direction first).map fun b => (g.dual b.1, b.2)).map Prod.fst =
      ((ws.blocking direction first).map Prod.fst).map g.dual := by
    rw [Option.map_map, Option.map_map]
    rfl
  have hnear := hstep direction
  unfold plan
  simp only [h.blocking_eq_map hsame, h.fullStep_eq hsteady, hratio, g.shorterStep_dual,
    g.finiteStep_dual]
  -- by what limits the step
  cases hshort : finiteStep (shorterStep ((ws.blocking direction first).map Prod.fst)
      (ws.fullStep slack curvature)) with
  | none => rfl
  | some step =>
    cases hfull : finiteStep (ws.fullStep slack curvature) with
    | none => cases ws.blocking direction first <;> rfl
    | some full =>
      have hverdict := hnear step full hdirection hshort hfull
      cases ws.blocking direction first with
      | none => rfl
      | some b =>
        simp only [Option.map_some, hverdict]
        split <;> rfl

/-! ## Moving, entering, folding in and taking out -/

theorem dual_relax_eq {step : α} {direction : Vector α ws.count} (hroom : ws.count ≤ slots)
    (k : Nat) : (ws.relax step direction).dual k =
      if k < ws.count then ws.dual k - step * Vec.extend direction k else ws.dual k := by
  rcases Nat.lt_or_ge slots k with hk | hk
  · rw [if_neg (by omega), dual, dual, Vec.extend_of_ge _ hk, Vec.extend_of_ge _ hk]
  · exact dual_relax hk

theorem dual_shift_eq {step : α} {direction : Vector α ws.count} (hroom : ws.count ≤ slots)
    (k : Nat) : (ws.shift step direction).dual k =
      if k < ws.count then ws.dual k - step * Vec.extend direction k
      else if k = ws.count then ws.dual k + step
      else ws.dual k := by
  rcases Nat.lt_or_ge slots k with hk | hk
  · rw [if_neg (by omega), if_neg (by omega), dual, dual, Vec.extend_of_ge _ hk,
      Vec.extend_of_ge _ hk]
  · exact dual_shift hk

namespace AlikeAimed

variable (h : AlikeAimed g ws ws') (hroom : ws.count ≤ slots) (hroom' : ws.count ≤ slots')
include h hroom hroom'

theorem relax (step : α) {direction : Vector α ws.count} {direction' : Vector α ws'.count}
    (hsame : ∀ k, Vec.extend direction' k = Vec.extend direction k) :
    AlikeAimed g (ws.relax step direction) (ws'.relax (g.dual step) direction') := by
  refine ⟨⟨h.factors, h.label, fun k => ?_⟩, h.image, h.primal⟩
  rw [dual_relax_eq (h.count.symm ▸ hroom'), dual_relax_eq hroom, hsame, h.count, h.dual]
  split
  · rw [g.dual_sub, g.dual_mul]
  · rfl

theorem shift (step : α) {direction : Vector α ws.count} {direction' : Vector α ws'.count}
    (hsame : ∀ k, Vec.extend direction' k = Vec.extend direction k) :
    AlikeAimed g (ws.shift step direction) (ws'.shift (g.dual step) direction') := by
  refine ⟨⟨h.factors, h.label, fun k => ?_⟩, h.image, h.primal⟩
  rw [dual_shift_eq (h.count.symm ▸ hroom'), dual_shift_eq hroom, hsame, h.count, h.dual]
  split
  · rw [g.dual_sub, g.dual_mul]
  · split
    · rw [g.dual_add]
    · rfl

end AlikeAimed

section Placed

variable {w : Workspace α n slots} {w' : Workspace α n slots'} {l : Label} {u : α}
  (hw : ws.place l u = .ok w)
include hw

/-- A name is written into the same slot of both. -/
theorem Alike.place (h : Alike g ws ws') (hw' : ws'.place l (g.dual u) = .ok w') :
    Alike g w w' := by
  refine ⟨?_, fun k => ?_, fun k => ?_⟩
  · obtain ⟨_, rfl⟩ := place_ok hw
    obtain ⟨_, rfl⟩ := place_ok hw'
    exact h.factors
  · rw [label_place hw, label_place hw', h.count, h.label]
  · rw [dual_place hw, dual_place hw', h.count, h.dual]
    split <;> rfl

theorem AlikeAimed.place (h : AlikeAimed g ws ws') (hw' : ws'.place l (g.dual u) = .ok w') :
    AlikeAimed g w w' := by
  refine ⟨h.toAlike.place hw hw', ?_, ?_⟩
  · obtain ⟨_, rfl⟩ := place_ok hw
    obtain ⟨_, rfl⟩ := place_ok hw'
    exact h.image
  · obtain ⟨_, rfl⟩ := place_ok hw
    obtain ⟨_, rfl⟩ := place_ok hw'
    exact h.primal

/-- The comparisons of a fold are not about the names and the dual values. -/
theorem Steady.place (h : ws.Steady g) : w.Steady g := by
  obtain ⟨_, rfl⟩ := place_ok hw
  exact ⟨h.moves, h.turns, h.accepts⟩

end Placed

/-- The workspace with the cleared image as its next column. -/
def grown (ws : Workspace α n slots) : Workspace α n slots :=
  let s := clearTail ws.count (n - 1) (ws.image, ws.basis)
  { ws with
    count := ws.count + 1
    image := s.1
    basis := s.2
    triangle := withColumn ws.triangle s.1 ws.count }

theorem fold_eq (hroom : ws.count < n) :
    ws.fold =
      if Scalar.le (Scalar.abs ws.pivot) (Scalar.epsilon * ws.pivotScale) then (ws.grown, false)
      else ({ ws.grown with
        pivotScale := Scalar.larger ws.pivotScale (Scalar.abs ws.pivot) }, true) :=
  if_neg (Nat.not_le.mpr hroom)

namespace AlikeAimed

variable (h : AlikeAimed g ws ws') (hsteady : ws.Steady g)
include h hsteady

theorem cleared_eq (hroom : ws.count < n) :
    clearTail ws'.count (n - 1) (ws'.image, ws'.basis) =
      ((clearTail ws.count (n - 1) (ws.image, ws.basis)).1.map g.image,
        (clearTail ws.count (n - 1) (ws.image, ws.basis)).2.map g.image) := by
  have hturns : g.TurnsAlike (clearedPairs ws.count (n - 1) (ws.image, ws.basis)) := by
    have hfold := hsteady.turns
    rwa [foldPairs, if_neg (Nat.not_le.mpr hroom)] at hfold
  have hbasis : ws'.basis = ws.basis.map g.image := h.factors.basis
  rw [h.count, h.image, hbasis]
  exact Gauge.clearTail_image hturns

theorem pivot_eq (hroom : ws.count < n) : ws'.pivot = g.image ws.pivot := by
  rw [pivot, h.cleared_eq hsteady hroom, h.count]
  exact Vec.extend_map _ g.image_zero _ _

/-- A fold is accepted in both gauges or in none. -/
theorem fold_cases :
    (∃ w w', ws.fold = (w, true) ∧ ws'.fold = (w', true) ∧ Alike g w w') ∨
      ∃ w w', ws.fold = (w, false) ∧ ws'.fold = (w', false) := by
  rcases Nat.lt_or_ge ws.count n with hroom | hfull
  · have hcleared := h.cleared_eq hsteady hroom
    have hpivot := h.pivot_eq hsteady hroom
    have hverdict := hsteady.accepts hroom _ h.factors.scale
    have hcount : ws'.count + 1 = ws.count + 1 := congrArg Nat.succ h.count
    have htriangle : ws'.grown.triangle = ws.grown.triangle.map g.image := by
      have hold : ws'.triangle = ws.triangle.map g.image := h.factors.triangle
      simp only [grown]
      rw [hcleared, hold, h.count, Gauge.withColumn_image]
    have hbasis : ws'.grown.basis = ws.grown.basis.map g.image := by
      simp only [grown]
      rw [hcleared]
    rw [fold_eq hroom, fold_eq (h.count.symm ▸ hroom), hpivot]
    change Scalar.le _ (Scalar.epsilon * ws'.pivotScale) = _ at hverdict
    rw [hverdict]
    split
    · exact .inr ⟨_, _, rfl, rfl⟩
    · exact .inl ⟨_, _, rfl, rfl, ⟨hcount, g.scales_larger _ h.factors.scale, hbasis, htriangle⟩,
        h.label, h.dual⟩
  · exact .inr ⟨ws, ws', if_pos hfull, if_pos (h.count.symm ▸ hfull)⟩

end AlikeAimed

/-- A slot is taken out of both. -/
theorem Alike.eraseAt (h : Alike g ws ws') (hroom : ws.count ≤ slots) (hroom' : ws.count ≤ slots')
    {p : Nat} (hp : p < ws.count) (hturns : g.TurnsAlike (ws.erasePairs p)) :
    Alike g (ws.eraseAt p) (ws'.eraseAt p) := by
  have hbasis : ws'.basis = ws.basis.map g.image := h.factors.basis
  have htriangle : ws'.triangle = ws.triangle.map g.image := h.factors.triangle
  have hblocks : retriangulate (ws'.count - 1) (ws'.count - 1 - p) p
      (closeColumn ws'.triangle p ws'.count, ws'.basis) =
        ((ws.eraseAt p).triangle.map g.image, (ws.eraseAt p).basis.map g.image) := by
    rw [h.count, hbasis, htriangle, Gauge.closeColumn_image]
    exact Gauge.retriangulate_image (s := (closeColumn ws.triangle p ws.count, ws.basis)) hturns
  refine ⟨⟨congrArg (· - 1) h.count, h.factors.scale, congrArg Prod.snd hblocks,
    congrArg Prod.fst hblocks⟩, fun k => ?_, fun k => ?_⟩
  · rcases Nat.lt_or_ge k ws.count with hk | hk
    · rw [label_eraseAt hroom hk, label_eraseAt (h.count.symm ▸ hroom') (h.count.symm ▸ hk),
        h.label]
    · have hbehind : (ws.eraseAt p).label k =
          if k = ws.count then .inequality 0 else ws.label k := getOr_closeGap_of_ge hp hk
      have hbehind' : (ws'.eraseAt p).label k =
          if k = ws'.count then .inequality 0 else ws'.label k :=
        getOr_closeGap_of_ge (h.count.symm ▸ hp) (h.count.symm ▸ hk)
      rw [hbehind, hbehind', h.count, h.label]
  · rcases Nat.lt_or_ge k ws.count with hk | hk
    · rw [dual_eraseAt hroom hk, dual_eraseAt (h.count.symm ▸ hroom') (h.count.symm ▸ hk), h.dual]
    · have hbehind : (ws.eraseAt p).dual k = if k = ws.count then 0 else ws.dual k :=
        getOr_closeGap_of_ge hp hk
      have hbehind' : (ws'.eraseAt p).dual k = if k = ws'.count then 0 else ws'.dual k :=
        getOr_closeGap_of_ge (h.count.symm ▸ hp) (h.count.symm ▸ hk)
      rw [hbehind, hbehind', h.count, h.dual]
      split
      · exact g.dual_zero.symm
      · rfl

end Workspace

end ActiveSet

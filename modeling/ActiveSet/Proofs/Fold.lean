import ActiveSet.Proofs.Rotation
/-
  Folding a constraint in, in exact arithmetic

  A fold clears the image of the new normal from the bottom up. Its rotations
  amount to one map that keeps inner products and the coordinates of the
  active slots, and that turns the image and the rows of the basis alike
  (`fold_spec`).

  A rotation is skipped where its pair is shorter than the threshold; what
  should have been cleared then stays. `foldPairs` and `erasePairs` list the
  pairs that the rotations of a fold and of a deletion are made for, and
  `uncleared` adds up the squares that the skipped ones leave: after a fold
  that is the squared length of what the image keeps below the new column.
-/

open Matrix

namespace ActiveSet

namespace Workspace

variable {α : Type} [Scalar α] {n slots : Nat}

/-! ## The pairs that rotations are made for -/

/-- The entries `j` and `j + 1`, as far as they are there. -/
def pairAt (v : Fin n → α) (j : Nat) : List (α × α) :=
  match neighbours? n j with
  | none => []
  | some (here, next) => [(v here, v next)]

/-- The pairs that `clearTail` makes its rotations for, in their order. -/
def clearedPairs (stop : Nat) : Nat → Vector α n × Mat α n n → List (α × α)
  | 0, _ => []
  | j + 1, s => if stop ≤ j then pairAt s.1.get j ++ clearedPairs stop j (clearNext s j) else []

/-- The pairs that `fold` makes its rotations for. -/
def foldPairs (ws : Workspace α n slots) : List (α × α) :=
  if n ≤ ws.count then [] else clearedPairs ws.count (n - 1) (ws.image, ws.basis)

/-- The pairs that `retriangulate` makes its rotations for, in their order. -/
def retriangulatedPairs (count : Nat) :
    (remaining j : Nat) → Mat α n n × Mat α n n → List (α × α)
  | 0, _, _ => []
  | k + 1, j, s =>
    (if h : j < n then pairAt (fun i => s.1.entry i ⟨j, h⟩) j else []) ++
      retriangulatedPairs count k (j + 1) (clearBelow count s j)

/-- The pairs that `eraseAt` makes its rotations for. -/
def erasePairs (ws : Workspace α n slots) (p : Nat) : List (α × α) :=
  retriangulatedPairs (ws.count - 1) (ws.count - 1 - p) p
    (closeColumn ws.triangle p ws.count, ws.basis)

omit [Scalar α] in
theorem length_pairAt_le (v : Fin n → α) (j : Nat) : (pairAt v j).length ≤ 1 := by
  unfold pairAt
  split <;> simp

theorem length_clearedPairs_le (stop j : Nat) (s : Vector α n × Mat α n n) :
    (clearedPairs stop j s).length ≤ j := by
  induction j generalizing s with
  | zero => simp [clearedPairs]
  | succ j ih =>
    simp only [clearedPairs]
    split
    · have h := ih (clearNext s j)
      have hp := length_pairAt_le s.1.get j
      rw [List.length_append]
      omega
    · simp

theorem length_foldPairs_le (ws : Workspace α n slots) : ws.foldPairs.length ≤ n := by
  unfold foldPairs
  split
  · simp
  · have h := length_clearedPairs_le ws.count (n - 1) (ws.image, ws.basis)
    omega

theorem clearTail_self (stop : Nat) (s : Vector α n × Mat α n n) : clearTail stop stop s = s := by
  cases stop with
  | zero => rfl
  | succ j => rw [clearTail, if_neg (Nat.not_succ_le_self j)]

/-- A fold into the last column has nothing to clear. -/
theorem foldPairs_of_last {ws : Workspace α n slots} (h : n ≤ ws.count + 1) :
    ws.foldPairs = [] := by
  unfold foldPairs
  split
  · rfl
  · next hroom =>
    rw [show n - 1 = ws.count by omega]
    cases hcount : ws.count with
    | zero => rfl
    | succ k => exact if_neg (Nat.not_succ_le_self k)

/-- A fold into the last column takes the image as it is. -/
theorem fold_of_last {ws : Workspace α n slots} (h : ws.count + 1 = n)
    (hpivot : Scalar.le (Scalar.abs (Vec.extend ws.image ws.count))
      (Scalar.epsilon * ws.pivotScale) = false) :
    ws.fold = ({ ws with
      count := ws.count + 1
      triangle := withColumn ws.triangle ws.image ws.count
      pivotScale := Scalar.larger ws.pivotScale (Scalar.abs (Vec.extend ws.image ws.count)) },
      true) := by
  have hlast : n - 1 = ws.count := by omega
  rw [fold, if_neg (by omega), hlast, clearTail_self]
  simp only [hpivot, Bool.false_eq_true, if_false]

/-- A fold into the last column is refused if the last entry of the image is negligible. -/
theorem fold_refused_of_last {ws : Workspace α n slots} (h : ws.count + 1 = n)
    (hpivot : Scalar.le (Scalar.abs (Vec.extend ws.image ws.count))
      (Scalar.epsilon * ws.pivotScale) = true) : ∃ ws', ws.fold = (ws', false) := by
  have hlast : n - 1 = ws.count := by omega
  rw [fold, if_neg (by omega), hlast, clearTail_self]
  simp only [hpivot, if_true]
  exact ⟨_, rfl⟩

end Workspace

/-- Whether no rotation is made for a pair. -/
def IsSkipped (ab : ℝ × ℝ) : Prop := Scalar.hypot ab.1 ab.2 < Scalar.epsilon

noncomputable instance (ab : ℝ × ℝ) : Decidable (IsSkipped ab) := Classical.dec _

/-- The sum of the squares that skipped rotations leave in place. -/
noncomputable def uncleared (pairs : List (ℝ × ℝ)) : ℝ :=
  ((pairs.filter fun ab => IsSkipped ab).map fun ab => ab.2 * ab.2).sum

/-- Whether every rotation that is skipped has nothing to clear. -/
def SkipsOnlyZeros (pairs : List (ℝ × ℝ)) : Prop :=
  ∀ ab ∈ pairs, IsSkipped ab → ab.1 = 0 ∧ ab.2 = 0

theorem uncleared_append (l m : List (ℝ × ℝ)) :
    uncleared (l ++ m) = uncleared l + uncleared m := by
  simp [uncleared]

theorem uncleared_eq_zero {pairs : List (ℝ × ℝ)} (h : SkipsOnlyZeros pairs) :
    uncleared pairs = 0 := by
  induction pairs with
  | nil => simp [uncleared]
  | cons ab l ih =>
    have hrest : uncleared l = 0 := ih fun cd hcd => h cd (List.mem_cons_of_mem _ hcd)
    have hsplit := uncleared_append [ab] l
    rw [List.singleton_append] at hsplit
    rw [hsplit, hrest, add_zero]
    by_cases hab : IsSkipped ab
    · simp [uncleared, hab, (h ab List.mem_cons_self hab).2]
    · simp [uncleared, hab]

theorem mul_self_le_of_isSkipped {ab : ℝ × ℝ} (h : IsSkipped ab) :
    ab.2 * ab.2 ≤ Scalar.epsilon * Scalar.epsilon := by
  have hlen : 0 ≤ Scalar.hypot ab.1 ab.2 := Real.sqrt_nonneg _
  have hsq := Rotation.hypot_mul_self ab.1 ab.2
  have hlt : Scalar.hypot ab.1 ab.2 < Scalar.epsilon := h
  nlinarith [mul_self_nonneg ab.1, hlt, hlen]

/-- Each skipped rotation leaves less than the threshold. -/
theorem uncleared_le (pairs : List (ℝ × ℝ)) :
    uncleared pairs ≤ pairs.length * (Scalar.epsilon * Scalar.epsilon) := by
  induction pairs with
  | nil => simp [uncleared]
  | cons ab l ih =>
    have hsplit := uncleared_append [ab] l
    rw [List.singleton_append] at hsplit
    have hone : uncleared [ab] ≤ Scalar.epsilon * Scalar.epsilon := by
      by_cases hab : IsSkipped ab
      · simpa [uncleared, hab] using mul_self_le_of_isSkipped hab
      · simpa [uncleared, hab] using mul_self_nonneg _
    rw [hsplit, List.length_cons, Nat.cast_succ]
    linarith

/-! ## The rotations of a fold -/

namespace Workspace

variable {n slots : Nat}

/-- The squares of the entries after `stop`, up to `last`. -/
noncomputable def squaresBetween (stop last : Nat) (v : Fin n → ℝ) : ℝ :=
  ∑ k : Fin n, if stop < k.val ∧ k.val ≤ last then v k * v k else 0

theorem squaresBetween_self (stop : Nat) (v : Fin n → ℝ) {last : Nat} (h : last ≤ stop) :
    squaresBetween stop last v = 0 :=
  Finset.sum_eq_zero fun k _ => if_neg fun hk => by omega

theorem squaresBetween_succ (stop : Nat) (v : Fin n → ℝ) (next : Fin n) {j : Nat}
    (hnext : next.val = j + 1) (h : stop ≤ j) :
    squaresBetween stop (j + 1) v = v next * v next + squaresBetween stop j v := by
  have hone : ∑ k : Fin n, (if k = next then v k * v k else 0) = v next * v next := by
    simp
  rw [squaresBetween, squaresBetween, ← hone, ← Finset.sum_add_distrib]
  apply Finset.sum_congr rfl
  intro k _
  by_cases hk : k = next
  · subst hk
    rw [if_pos ⟨by omega, by omega⟩, if_pos rfl, if_neg (by omega), add_zero]
  · have hne : k.val ≠ j + 1 := fun hval => hk (Fin.ext (hval.trans hnext.symm))
    rw [if_neg hk, zero_add]
    by_cases hin : stop < k.val ∧ k.val ≤ j
    · rw [if_pos hin, if_pos ⟨hin.1, by omega⟩]
    · rw [if_neg hin, if_neg (by omega)]

theorem neighbours?_of_lt {j : Nat} (h : j + 1 < n) :
    neighbours? n j = some (⟨j, Nat.lt_of_succ_lt h⟩, ⟨j + 1, h⟩) := by
  simp [neighbours?, h]

/-- What clearing one entry does: the image and the rows of the basis turn alike, entries after
the cleared one stay, and the square of the cleared one is left where the rotation was skipped. -/
theorem clearNext_spec (s : Vector ℝ n × Mat ℝ n n) {j : Nat} (h : j + 1 < n) :
    ∃ T, KeepsBelow T j ∧ (clearNext s j).1.get = T s.1.get ∧
      (∀ r, (clearNext s j).2.entry r = T (s.2.entry r)) ∧
      (∀ k : Fin n, j + 1 < k.val → (clearNext s j).1.get k = s.1.get k) ∧
      (clearNext s j).1.get ⟨j + 1, h⟩ * (clearNext s j).1.get ⟨j + 1, h⟩ =
        uncleared (pairAt s.1.get j) := by
  have hij : (⟨j, Nat.lt_of_succ_lt h⟩ : Fin n) < ⟨j + 1, h⟩ := Nat.lt_succ_self j
  simp only [clearNext, pairAt, neighbours?_of_lt h]
  generalize hhere : (⟨j, Nat.lt_of_succ_lt h⟩ : Fin n) = here at *
  generalize hnext : (⟨j + 1, h⟩ : Fin n) = next at *
  cases hpair : Rotation.ofPair? (s.1.get here) (s.1.get next) Scalar.epsilon with
  | none =>
    -- nothing turns, and the entry stays what it was
    have hskip : IsSkipped (s.1.get here, s.1.get next) := Rotation.ofPair?_eq_none.mp hpair
    refine ⟨LinearMap.id, .id, rfl, fun _ => rfl, fun _ _ => rfl, ?_⟩
    simp [uncleared, hskip]
  | some g =>
    -- the entry is cleared, so nothing is left of it to be counted
    have hkeep : ¬ IsSkipped (s.1.get here, s.1.get next) := fun hskip => by
      rw [Rotation.ofPair?_eq_none.mpr hskip] at hpair
      cases hpair
    have hg := Rotation.clears_ofPair? Scalar.epsilon_pos hpair
    have hturn := Rotation.keepsBelow_turn hg.toIsTurn hij
    have hval : here.val = j := by rw [← hhere]
    have hvalNext : next.val = j + 1 := by rw [← hnext]
    refine ⟨g.turn here next, hval ▸ hturn, ?_, ?_, ?_, ?_⟩
    · funext k
      simp only [Vec.get_set, Rotation.turn_apply]
      by_cases hk : k = next
      · subst hk
        rw [if_neg hij.ne, if_pos rfl, if_pos rfl, hg.second]
      · by_cases hk' : k = here
        · subst hk'
          rw [if_pos rfl, if_neg hk, if_pos rfl, hg.first]
        · rw [if_neg (Ne.symm hk'), if_neg (Ne.symm hk), if_neg hk, if_neg hk']
    · intro r
      exact Rotation.entry_onColumns_true hg.toIsTurn _ _ _ _
    · intro k hk
      have hk₁ : here ≠ k := fun he => by rw [← he] at hk; omega
      have hk₂ : next ≠ k := fun he => by rw [← he] at hk; omega
      simp only [Vec.get_set, if_neg hk₁, if_neg hk₂]
    · simp [Vec.get_set, hij.ne, uncleared, hkeep]

theorem clearTail_spec (stop : Nat) (s : Vector ℝ n × Mat ℝ n n) {j : Nat} (h : j < n) :
    ∃ T, KeepsBelow T stop ∧ (clearTail stop j s).1.get = T s.1.get ∧
      (∀ r, (clearTail stop j s).2.entry r = T (s.2.entry r)) ∧
      (∀ k : Fin n, j < k.val → (clearTail stop j s).1.get k = s.1.get k) ∧
      squaresBetween stop j (clearTail stop j s).1.get = uncleared (clearedPairs stop j s) := by
  -- on the entry to be cleared next; the last entry is cleared first
  induction j generalizing s with
  | zero =>
    exact ⟨LinearMap.id, .id, rfl, fun _ => rfl, fun _ _ => rfl, by
      rw [squaresBetween_self _ _ (Nat.zero_le _)]; simp [clearedPairs, uncleared]⟩
  | succ j ih =>
    by_cases hstop : stop ≤ j
    · obtain ⟨T, hT, himage, hrows, hlater, hleft⟩ := clearNext_spec s h
      obtain ⟨S, hS, himage', hrows', hlater', hleft'⟩ := ih (clearNext s j) (by omega)
      have htail : clearTail stop (j + 1) s = clearTail stop j (clearNext s j) := by
        rw [clearTail, if_pos hstop]
      rw [htail]
      refine ⟨S ∘ₗ T, hS.comp (hT.mono hstop), ?_, ?_, ?_, ?_⟩
      · rw [himage', himage, LinearMap.comp_apply]
      · intro r
        rw [hrows', hrows, LinearMap.comp_apply]
      · intro k hk
        rw [hlater' k (by omega), hlater k hk]
      · rw [squaresBetween_succ stop _ ⟨j + 1, h⟩ rfl hstop, hlater' _ (Nat.lt_succ_self j), hleft,
          hleft', clearedPairs, if_pos hstop, uncleared_append]
    · have htail : clearTail stop (j + 1) s = s := by rw [clearTail, if_neg hstop]
      rw [htail]
      refine ⟨LinearMap.id, .id, rfl, fun _ => rfl, fun _ _ => rfl, ?_⟩
      rw [squaresBetween_self _ _ (by omega), clearedPairs, if_neg hstop]
      simp [uncleared]

/-- What an accepted fold does to the factorization: a map that keeps the coordinates of the
active slots turns the rows of the basis and the image; the new column is the head of the turned
image, and the squares of what is left after it are those that its rotations skipped. -/
theorem fold_spec {ws ws' : Workspace ℝ n slots} (h : ws.fold = (ws', true)) :
    ∃ hcount : ws.count < n, ∃ T, KeepsBelow T ws.count ∧ ws'.count = ws.count + 1 ∧
      (∀ r, ws'.basis.entry r = T (ws.basis.entry r)) ∧
      (∀ i k : Fin n, ws'.triangle.entry i k =
        if k.val = ws.count ∧ i.val ≤ ws.count then T ws.image.get i
        else ws.triangle.entry i k) ∧
      Scalar.epsilon * ws.pivotScale < |T ws.image.get ⟨ws.count, hcount⟩| ∧
      ws'.pivotScale = max ws.pivotScale |T ws.image.get ⟨ws.count, hcount⟩| ∧
      squaresBetween ws.count (n - 1) (T ws.image.get) = uncleared ws.foldPairs := by
  unfold fold at h
  split at h
  · cases h
  · next hfull =>
    have hcount : ws.count < n := not_le.mp hfull
    obtain ⟨T, hT, himage, hrows, -, hleft⟩ :=
      clearTail_spec ws.count (ws.image, ws.basis) (show n - 1 < n by omega)
    dsimp only at h
    rw [Vec.extend_of_lt _ hcount, himage] at h
    split at h
    · cases h
    · next hpivot =>
      cases h
      simp only [Scalar.le_real, Scalar.abs_real, decide_eq_true_eq, not_le] at hpivot
      refine ⟨hcount, T, hT, rfl, hrows, ?_, hpivot, by simp, ?_⟩
      · intro i k
        simp only [withColumn, Mat.entry_ofFn]
        rw [himage]
      · rw [foldPairs, if_neg hfull, ← hleft, himage]

/-! ## The first fold in the plane -/

section Plane

variable {slots : Nat} {ws : Workspace ℝ 2 slots} (hcount : ws.count = 0)
include hcount

/-- In the plane the first fold has one pair to rotate. -/
theorem foldPairs_of_plane : ws.foldPairs = [(ws.image.get 0, ws.image.get 1)] := by
  simp [foldPairs, clearedPairs, pairAt, hcount, neighbours?_of_lt (show 0 + 1 < 2 by omega)]

/-- It is not skipped if the image is long along the first axis. -/
theorem skipsOnlyZeros_of_plane (hlong : Scalar.epsilon ≤ |ws.image.get 0|) :
    SkipsOnlyZeros ws.foldPairs := by
  intro ab hab hskip
  rw [foldPairs_of_plane hcount, List.mem_singleton] at hab
  subst hab
  exact absurd hskip (not_lt.mpr (hlong.trans (Rotation.abs_le_hypot _ _)))

/-- In the plane the first fold turns the basis by the rotation of the image, and is accepted if the
image is long enough. -/
theorem fold_of_plane {g : Rotation ℝ}
    (hpair : Rotation.ofPair? (ws.image.get 0) (ws.image.get 1) Scalar.epsilon = some g)
    (hpivot : Scalar.epsilon * ws.pivotScale < |g.length|) :
    ∃ ws', ws.fold = (ws', true) ∧ ws'.count = 1 ∧
      ws'.pivotScale = max ws.pivotScale |g.length| ∧ ws'.triangle.entry 0 0 = g.length ∧
      ∀ r, ws'.basis.entry r = g.turn 0 1 (ws.basis.entry r) := by
  have hturn : g.IsTurn := (Rotation.clears_ofPair? Scalar.epsilon_pos hpair).toIsTurn
  have hclear : clearTail 0 1 (ws.image, ws.basis) =
      (Vec.set (Vec.set ws.image 1 0) 0 g.length,
        g.onColumns ws.basis 0 1 fun _ => true) := by
    simp only [clearTail, clearNext, neighbours?_of_lt (show 0 + 1 < 2 by omega)]
    rw [if_pos (le_refl 0)]
    split
    · next hnone => cases hpair.symm.trans hnone
    · next g' hg =>
      cases hpair.symm.trans hg
      rfl
  have hlength : Scalar.abs (Vec.extend (Vec.set (Vec.set ws.image 1 0) 0 g.length) 0) =
      |g.length| := by
    rw [Vec.extend_of_lt _ (by omega), Vec.get_set]
    rfl
  have hlarge : Scalar.le |g.length| (Scalar.epsilon * ws.pivotScale) = false := by
    rw [Scalar.le_real]
    exact decide_eq_false (not_le.mpr hpivot)
  have hfold : ws.fold = ({ ws with
      count := 1
      image := Vec.set (Vec.set ws.image 1 0) 0 g.length
      basis := g.onColumns ws.basis 0 1 fun _ => true
      triangle := withColumn ws.triangle (Vec.set (Vec.set ws.image 1 0) 0 g.length) 0
      pivotScale := Scalar.larger ws.pivotScale |g.length| }, true) := by
    simp only [fold, hcount, hclear, hlength, hlarge]
    rfl
  refine ⟨_, hfold, rfl, Scalar.larger_real _ _, ?_, fun r => ?_⟩
  · show (withColumn _ _ 0).entry 0 0 = _
    rw [withColumn, Mat.entry_ofFn, if_pos ⟨rfl, le_refl 0⟩, Vec.get_set, if_pos rfl]
  · exact Rotation.entry_onColumns_true hturn ..

/-- Along the first axis that rotation changes the sign of the second column alone. -/
theorem fold_of_axis (hscale : ws.pivotScale = 1) (hlong : Scalar.epsilon < ws.image.get 0)
    (hzero : ws.image.get 1 = 0) :
    ∃ ws', ws.fold = (ws', true) ∧ ws'.count = 1 ∧ ws'.pivotScale = max 1 (ws.image.get 0) ∧
      ws'.triangle.entry 0 0 = ws.image.get 0 ∧ ∀ r,
        ws'.basis.entry r 0 = ws.basis.entry r 0 ∧ ws'.basis.entry r 1 = -ws.basis.entry r 1 := by
  have hpos : 0 < ws.image.get 0 := Scalar.epsilon_pos.trans hlong
  have hpair : Rotation.ofPair? (ws.image.get 0) (ws.image.get 1) Scalar.epsilon =
      some ⟨1, 0, ws.image.get 0⟩ := by
    rw [hzero, Rotation.ofPair?_zero hpos hlong.le]
  obtain ⟨ws', hfold, hcount', hscale', htriangle, hbasis⟩ := fold_of_plane hcount hpair (by
    rw [hscale, mul_one, abs_of_pos hpos]
    exact hlong)
  rw [hscale, abs_of_pos hpos] at hscale'
  refine ⟨ws', hfold, hcount', hscale', htriangle, fun r => ⟨?_, ?_⟩⟩
  · rw [hbasis, Rotation.turn_apply]
    simp
  · rw [hbasis, Rotation.turn_apply]
    simp

end Plane

end Workspace

end ActiveSet

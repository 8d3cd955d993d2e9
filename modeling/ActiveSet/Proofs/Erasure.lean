import ActiveSet.Proofs.Exact
import ActiveSet.Proofs.Slots
/-
  What taking a constraint out leaves alone

  Nothing here rests on a law of arithmetic: these are facts about which
  entries are written, so they hold where sums round and where a NaN is about.

  In the names and the dual values one entry goes, and the free slot moves up
  with the others. Both are the same list operation, `eraseIdx` on the entries
  up to the free slot (`toList_closeGap`).

  In the matrices, closing the gap moves columns and nothing else. The rotation
  for column `j` then writes rows `j` and `j + 1` of the triangle, in columns
  from `j` on, and columns `j` and `j + 1` of the basis (`entry_clearBelow`,
  `basis_clearBelow`). Over a run that starts at the gap this stays between the
  gap and the column that was vacated, since the boundary only moves on.
-/

namespace ActiveSet

theorem Vec.getElem?_toList {β : Type} {m k : Nat} (v : Vector β m) (hk : k < m) (blank : β) :
    v.toList[k]? = some (Vec.getOr v k blank) := by
  rw [getOr, dif_pos hk, List.getElem?_eq_getElem (by simpa using hk), Vector.getElem_toList,
    get_eq_getElem]

namespace Workspace

variable {α : Type} {n slots : Nat}

/-! ## One entry of a list goes -/

/-- Closing the gap at `p` erases entry `p` of those up to the free slot, and leaves the free slot
blank. -/
theorem toList_closeGap {β : Type} {m p count : Nat} (v : Vector β m) (blank : β) (hp : p < count)
    (hcount : count < m) :
    (closeGap v p count blank).toList =
      (v.toList.take (count + 1)).eraseIdx p ++ blank :: v.toList.drop (count + 1) := by
  have hlength : ((v.toList.take (count + 1)).eraseIdx p).length = count := by
    rw [List.length_eraseIdx, if_pos] <;> simp <;> omega
  refine List.ext_getElem? fun k => ?_
  rcases Nat.lt_or_ge k m with hk | hk
  · rw [Vec.getElem?_toList _ hk blank]
    rcases Nat.lt_trichotomy k count with hlt | rfl | hgt
    · have hskip : skip p k < count + 1 := Nat.lt_succ_of_le (by have := skip_le p k; omega)
      rw [getOr_closeGap hcount hlt, List.getElem?_append_left (hlength.symm ▸ hlt),
        getElem?_eraseIdx_skip, List.getElem?_take_of_lt hskip,
        Vec.getElem?_toList _ (by omega) blank]
    · rw [getOr_closeGap_of_ge hp le_rfl, if_pos rfl, List.getElem?_append_right hlength.le,
        hlength, Nat.sub_self]
      rfl
    · obtain ⟨j, rfl⟩ : ∃ j, k = count + (j + 1) := ⟨k - (count + 1), by omega⟩
      rw [getOr_closeGap_of_ge hp hgt.le, if_neg hgt.ne', List.getElem?_append_right (by omega),
        hlength, Nat.add_sub_cancel_left, List.getElem?_cons_succ, List.getElem?_drop,
        Nat.add_right_comm, Nat.add_assoc, Vec.getElem?_toList _ hk blank]
  · rw [List.getElem?_eq_none (by simpa using hk), List.getElem?_eq_none]
    simp [hlength]
    omega

/-! ## What the rotations reach -/

variable [Scalar α] {ws : Workspace α n slots} {p count j : Nat} {s : Mat α n n × Mat α n n}

/-- The rotation for column `j` writes the triangle in two rows and in columns from `j` on. -/
theorem entry_clearBelow (hj : j < count) {i k : Fin n}
    (hik : i.val < j ∨ j + 1 < i.val ∨ k.val < j ∨ count ≤ k.val) :
    (clearBelow count s j).1.entry i k = s.1.entry i k := by
  unfold clearBelow
  split
  · rfl
  · next here below hsome =>
    obtain ⟨hhere, hbelow⟩ := val_of_neighbours? hsome
    split
    · rfl
    · have hset (x y : α) : ((s.1.set below here x).set here here y).entry i k = s.1.entry i k := by
        rw [Mat.entry_set, if_neg, Mat.entry_set, if_neg] <;> rintro ⟨rfl, rfl⟩ <;> omega
      rw [Rotation.entry_onRows]
      split
      · next hcolumn =>
        have hrange : j < k.val ∧ k.val < count := of_decide_eq_true hcolumn
        rw [if_neg (Fin.ne_of_val_ne (by omega)), if_neg (Fin.ne_of_val_ne (by omega)), hset]
      · exact hset _ _

/-- It writes the basis in two columns. -/
theorem basis_clearBelow (count : Nat) {r k : Fin n} (hk : k.val < j ∨ j + 1 < k.val) :
    (clearBelow count s j).2.entry r k = s.2.entry r k := by
  unfold clearBelow
  split
  · rfl
  · next here below hsome =>
    obtain ⟨hhere, hbelow⟩ := val_of_neighbours? hsome
    split
    · rfl
    · rw [Rotation.entry_onColumns, if_pos rfl, if_neg (Fin.ne_of_val_ne (by omega)),
        if_neg (Fin.ne_of_val_ne (by omega))]

theorem entry_retriangulate {remaining : Nat} (hj : j + remaining ≤ count) {i k : Fin n}
    (hik : i.val < j ∨ j + remaining < i.val ∨ k.val < j ∨ count ≤ k.val) :
    (retriangulate count remaining j s).1.entry i k = s.1.entry i k := by
  -- on the number of rotations that are left, each of which moves the boundary on
  induction remaining generalizing j s with
  | zero => rfl
  | succ remaining ih =>
    rw [retriangulate, ih (by omega) (by omega), entry_clearBelow (by omega) (by omega)]

theorem basis_retriangulate (count : Nat) {remaining : Nat} {r k : Fin n}
    (hk : k.val < j ∨ j + remaining < k.val) :
    (retriangulate count remaining j s).2.entry r k = s.2.entry r k := by
  induction remaining generalizing j s with
  | zero => rfl
  | succ remaining ih =>
    rw [retriangulate, ih (by omega), basis_clearBelow count (by omega)]

/-! ## What a deletion leaves -/

/-- Whether a workspace comes from another one by erasing slot `p`. -/
structure Erases (ws : Workspace α n slots) (p : Nat) (ws' : Workspace α n slots) : Prop where
  count : ws'.count + 1 = ws.count
  active : ws'.active.toList =
    (ws.active.toList.take (ws.count + 1)).eraseIdx p ++
      .inequality 0 :: ws.active.toList.drop (ws.count + 1)
  duals : ws'.duals.toList =
    (ws.duals.toList.take (ws.count + 1)).eraseIdx p ++ 0 :: ws.duals.toList.drop (ws.count + 1)
  /-- Columns of the triangle before the gap stay. -/
  before : ∀ i k : Fin n, k.val < p → ws'.triangle.entry i k = ws.triangle.entry i k
  /-- Those behind it move one place to the left, without a change outside the rows that turn. -/
  moved : ∀ i k next : Fin n, next.val = k.val + 1 → p ≤ k.val → next.val < ws.count →
    i.val < p ∨ ws.count ≤ i.val → ws'.triangle.entry i k = ws.triangle.entry i next
  /-- The last one is cleared as far down as there were active constraints. -/
  vacated : ∀ i k : Fin n, k.val + 1 = ws.count → i.val < ws.count → ws'.triangle.entry i k = 0
  behind : ∀ i k : Fin n, ws.count ≤ k.val ∨ k.val + 1 = ws.count ∧ ws.count ≤ i.val →
    ws'.triangle.entry i k = ws.triangle.entry i k
  basis : ∀ r k : Fin n, k.val < p ∨ ws.count ≤ k.val → ws'.basis.entry r k = ws.basis.entry r k
  image : ws'.image = ws.image
  primal : ws'.primal = ws.primal
  slack : ws'.slack = ws.slack
  pivotScale : ws'.pivotScale = ws.pivotScale
  saved : ws'.saved = ws.saved

/-- The rotations of a deletion stay between the gap and the vacated column. -/
theorem entry_eraseAt (hp : p < ws.count) {i k : Fin n}
    (hik : i.val < p ∨ ws.count ≤ i.val ∨ k.val < p ∨ ws.count ≤ k.val + 1) :
    (ws.eraseAt p).triangle.entry i k = (closeColumn ws.triangle p ws.count).entry i k :=
  entry_retriangulate (s := (closeColumn ws.triangle p ws.count, ws.basis)) (by omega) (by omega)

theorem basis_eraseAt (hp : p < ws.count) {r k : Fin n} (hk : k.val < p ∨ ws.count ≤ k.val) :
    (ws.eraseAt p).basis.entry r k = ws.basis.entry r k :=
  basis_retriangulate (s := (closeColumn ws.triangle p ws.count, ws.basis)) _ (by omega)

theorem erases_eraseAt (hp : p < ws.count) (hroom : ws.count ≤ slots) :
    ws.Erases p (ws.eraseAt p) where
  count := Nat.sub_add_cancel (Nat.one_le_of_lt hp)
  active := toList_closeGap ws.active _ hp (Nat.lt_succ_of_le hroom)
  duals := toList_closeGap ws.duals _ hp (Nat.lt_succ_of_le hroom)
  before i k hk := by
    rw [entry_eraseAt hp (by omega), closeColumn, Mat.entry_ofFn, if_pos hk]
  moved i k next hnext hk hlast hi := by
    have hextend : ws.triangle.extend i (k + 1) = ws.triangle.entry i next := by
      rw [Mat.extend, dif_pos ⟨i.isLt, hnext ▸ next.isLt⟩]
      exact congrArg (ws.triangle.entry i) (Fin.ext hnext.symm)
    rw [entry_eraseAt hp (by omega), closeColumn, Mat.entry_ofFn, if_neg (by omega),
      if_pos (by omega), hextend]
  vacated i k hk hi := by
    rw [entry_eraseAt hp (by omega), closeColumn, Mat.entry_ofFn, if_neg (by omega),
      if_neg (by omega), if_pos ⟨hk, hi⟩]
  behind i k hik := by
    rw [entry_eraseAt hp (by omega), closeColumn, Mat.entry_ofFn, if_neg (by omega),
      if_neg (by omega), if_neg (by omega)]
  basis r k hk := basis_eraseAt hp hk
  image := rfl
  primal := rfl
  slack := rfl
  pivotScale := rfl
  saved := rfl

/-- A name that no active slot from `first` on holds is refused, and nothing changes; of a name
that one does hold, the first such slot is erased and nothing else. -/
theorem erases_of_delete (ws : Workspace α n slots) (hroom : ws.count ≤ slots) (l : Label)
    (first : Nat) :
    (l ∉ ws.labelsFrom first → ws.delete l first = .error (.notActive l.code, ws)) ∧
      (l ∈ ws.labelsFrom first →
        ∃ p ws', ws.IsFirst l first p ∧ ws.delete l first = .ok ws' ∧ ws.Erases p ws') := by
  have hcount : ws.count ≤ slots + 1 := Nat.le_succ_of_le hroom
  constructor
  · intro hmissing
    rw [delete, (position?_eq_none_iff hcount).mpr hmissing]
  · intro hheld
    cases hfound : ws.position? l first with
    | none => exact absurd hheld ((position?_eq_none_iff hcount).mp hfound)
    | some p =>
      have hfirst := position?_eq_some_iff.mp hfound
      refine ⟨p, ws.eraseAt p, hfirst, ?_, erases_eraseAt hfirst.lt_count hroom⟩
      simp only [delete, hfound, if_pos hroom]

end Workspace

/-- An equality and two inequalities in three variables, with a third inequality in the free slot
and behind it a slot in which an earlier one has left its name. -/
noncomputable def Workspace.crowded : Workspace ℝ 3 4 where
  count := 3
  pivotScale := 1
  basis := Mat.ofFn fun r k => ((3 * r.val + k.val : Nat) : ℝ)
  triangle := Mat.ofFn fun i k => if i ≤ k then ((i.val + 2 * k.val + 1 : Nat) : ℝ) else 0
  image := Vec.zero 3
  primal := Vec.zero 3
  duals := Vector.ofFn fun k => (k.val : ℝ)
  active := #v[.equality 0, .inequality 2, .inequality 5, .inequality 1, .inequality 2]
  slack := Vec.zero 4
  saved := (Workspace.blank 3 4).saved

namespace Workspace

/-- Behind the equality, neither the equality nor the constraint in the free slot is found. The
first of the inequalities is; the other one and the free slot move up, and so do the entries of
the triangle above the gap. -/
theorem erases_of_delete_crowded : crowded.count ≤ 4 ∧
    crowded.delete (.equality 0) 1 = .error (.notActive (-1), crowded) ∧
    crowded.delete (.inequality 1) 1 = .error (.notActive 1, crowded) ∧
    ∃ ws', crowded.delete (.inequality 2) 1 = .ok ws' ∧ ws'.count = 2 ∧
      ws'.active.toList =
        [.equality 0, .inequality 5, .inequality 1, .inequality 0, .inequality 2] ∧
      ws'.duals.toList = [0, 2, 3, 0, 4] ∧
      (∀ i, ws'.triangle.entry i 0 = if i = 0 then 1 else 0) ∧
      ws'.triangle.entry 0 1 = 5 ∧ (∀ i, ws'.triangle.entry i 2 = 0) ∧
      ∀ r, ws'.basis.entry r 0 = 3 * r.val := by
  have hroom : crowded.count ≤ 4 := by decide
  have hlabels : crowded.labelsFrom 1 = [.inequality 2, .inequality 5] := rfl
  refine ⟨hroom, (erases_of_delete crowded hroom _ 1).1 (by rw [hlabels]; decide),
    (erases_of_delete crowded hroom _ 1).1 (by rw [hlabels]; decide), ?_⟩
  obtain ⟨p, ws', hfirst, hdelete, herases⟩ :=
    (erases_of_delete crowded hroom (.inequality 2) 1).2 (by rw [hlabels]; decide)
  obtain rfl : p = 1 := by
    by_contra hp
    exact hfirst.earlier 1 le_rfl (by have := hfirst.first_le; omega) rfl
  refine ⟨ws', hdelete, Nat.succ_injective herases.count, herases.active, ?_, ?_, ?_, ?_, ?_⟩
  · rw [herases.duals]
    show [((0 : Nat) : ℝ), ((2 : Nat) : ℝ), ((3 : Nat) : ℝ), 0, ((4 : Nat) : ℝ)] = _
    norm_num
  · intro i
    rw [herases.before i 0 (by decide), crowded, Mat.entry_ofFn]
    fin_cases i <;> simp
  · rw [herases.moved 0 1 2 rfl le_rfl (by decide) (.inl (by decide)), crowded, Mat.entry_ofFn]
    norm_num
  · intro i
    exact herases.vacated i 2 rfl i.isLt
  · intro r
    rw [herases.basis r 0 (.inl (by decide)), crowded, Mat.entry_ofFn]
    simp

end Workspace

end ActiveSet

import ActiveSet.Proofs.Transition
/-
  The slots of a workspace

  A slot is read through two functions, `label` and `dual`, and every
  operation of a workspace is described by what it does to them: `place`
  writes the slot after the active ones, `shift` moves the dual values against
  a direction, a fold touches neither, and `eraseAt` reads every later slot
  one place further on (`skip`). The slot that is erased is the first one in
  the range with the name that is looked for (`IsFirst`).

  `Iterate.snapshot` is the copy that `save` would make of an iterate. What a
  solve has to maintain is stated of snapshots, so that undoing an iteration
  is no case of its own: the state it leads to has the saved copy as its
  snapshot.
-/

namespace ActiveSet

/-- The slot that moves to `k` when slot `p` is taken out. -/
def skip (p k : Nat) : Nat := if k < p then k else k + 1

theorem skip_le (p k : Nat) : skip p k ≤ k + 1 := by
  unfold skip
  split <;> omega

theorem skip_ne (p k : Nat) : skip p k ≠ p := by
  unfold skip
  split <;> omega

theorem skip_of_lt {p k : Nat} (h : k < p) : skip p k = k := if_pos h

theorem skip_of_le {p k : Nat} (h : p ≤ k) : skip p k = k + 1 := if_neg (Nat.not_lt.mpr h)

theorem skip_injective (p : Nat) {j k : Nat} (h : skip p j = skip p k) : j = k := by
  unfold skip at h
  split at h <;> split at h <;> omega

/-- Every slot but the one taken out has a new place. -/
theorem exists_skip {p k count : Nat} (hne : k ≠ p) (hk : k < count) (hp : p < count) :
    ∃ j < count - 1, skip p j = k := by
  rcases Nat.lt_or_ge k p with h | h
  · exact ⟨k, by omega, skip_of_lt h⟩
  · exact ⟨k - 1, by omega, by rw [skip_of_le (by omega)]; omega⟩

theorem getElem?_eraseIdx_skip {β : Type} (l : List β) (p k : Nat) :
    (l.eraseIdx p)[k]? = l[skip p k]? := by
  rw [List.getElem?_eraseIdx, skip]
  split <;> rfl

variable {α : Type} {n m slots : Nat}

/-- The name in a slot of a saved copy. -/
def Snapshot.label (t : Snapshot α n slots) (k : Nat) : Label :=
  if h : k < slots + 1 then t.active.get ⟨k, h⟩ else .inequality 0

/-- The copy of an iterate that `save` makes. -/
def Iterate.snapshot (it : Iterate α n slots m) : Snapshot α n slots where
  count := it.workspace.count
  pivotScale := it.workspace.pivotScale
  value := it.value
  point := it.point
  basis := it.workspace.basis
  triangle := it.workspace.triangle
  duals := it.workspace.duals
  active := it.workspace.active

theorem Iterate.label_snapshot (it : Iterate α n slots m) (k : Nat) :
    it.snapshot.label k = it.workspace.label k := rfl

variable [Scalar α]

/-- The dual value in a slot of a saved copy. -/
def Snapshot.dual (t : Snapshot α n slots) (k : Nat) : α := Vec.extend t.duals k

/-- The dual value in a slot. -/
def Workspace.dual (ws : Workspace α n slots) (k : Nat) : α := Vec.extend ws.duals k

namespace Workspace

variable {ws ws' : Workspace α n slots}

/-! ## Moving the dual values -/

theorem dual_relax {step : α} {direction : Vector α ws.count} {k : Nat} (hk : k ≤ slots) :
    (ws.relax step direction).dual k =
      if k < ws.count then ws.dual k - step * Vec.extend direction k else ws.dual k := by
  unfold dual relax
  rw [Vec.extend_of_lt _ (Nat.lt_succ_of_le hk), Vec.get_ofFn, Vec.extend_of_lt ws.duals]
  split
  · next h => rw [Vec.extend_of_lt _ h]
  · rfl

theorem dual_raise {step : α} {k : Nat} (hk : k ≤ slots) :
    (ws.raise step).dual k = if k = ws.count then ws.dual k + step else ws.dual k := by
  unfold dual raise
  rw [Vec.extend_of_lt _ (Nat.lt_succ_of_le hk), Vec.get_ofFn, Vec.extend_of_lt ws.duals]

/-- The active slots move against the direction, the slot after them upwards. -/
theorem dual_shift {step : α} {direction : Vector α ws.count} {k : Nat} (hk : k ≤ slots) :
    (ws.shift step direction).dual k =
      if k < ws.count then ws.dual k - step * Vec.extend direction k
      else if k = ws.count then ws.dual k + step
      else ws.dual k := by
  have hcount : (ws.relax step direction).count = ws.count := rfl
  unfold shift
  rw [dual_raise hk, hcount, dual_relax hk]
  by_cases hlt : k < ws.count
  · rw [if_neg (Nat.ne_of_lt hlt), if_pos hlt, if_pos hlt]
  · rw [if_neg hlt, if_neg hlt]

/-! ## Writing the slot after the active ones -/

omit [Scalar α] in
theorem place_ok {label : Label} {u : α} (h : ws.place label u = .ok ws') :
    ∃ hcount : ws.count < slots + 1,
      ws' = { ws with
        active := Vec.set ws.active ⟨ws.count, hcount⟩ label
        duals := Vec.set ws.duals ⟨ws.count, hcount⟩ u } := by
  unfold place at h
  split at h
  · next hcount =>
    cases h
    exact ⟨hcount, rfl⟩
  · cases h

omit [Scalar α] in
theorem count_place_le {label : Label} {u : α} (h : ws.place label u = .ok ws') :
    ws.count ≤ slots := by
  obtain ⟨hcount, -⟩ := place_ok h
  exact Nat.le_of_lt_succ hcount

omit [Scalar α] in
theorem label_place {label : Label} {u : α} (h : ws.place label u = .ok ws') {k : Nat} :
    ws'.label k = if k = ws.count then label else ws.label k := by
  obtain ⟨hcount, rfl⟩ := place_ok h
  unfold Workspace.label
  by_cases hk : k < slots + 1
  · rw [dif_pos hk, dif_pos hk]
    simp only [Vec.get_set, Fin.mk.injEq, eq_comm (a := ws.count)]
  · rw [dif_neg hk, dif_neg hk, if_neg (by omega)]

theorem dual_place {label : Label} {u : α} (h : ws.place label u = .ok ws') {k : Nat} :
    ws'.dual k = if k = ws.count then u else ws.dual k := by
  obtain ⟨hcount, rfl⟩ := place_ok h
  unfold dual Vec.extend
  by_cases hk : k < slots + 1
  · rw [dif_pos hk, dif_pos hk]
    simp only [Vec.get_set, Fin.mk.injEq, eq_comm (a := ws.count)]
  · rw [dif_neg hk, dif_neg hk, if_neg (by omega)]

/-! ## Folding in and taking out -/

/-- A fold changes the factorization only. -/
theorem fold_keeps {accepted : Bool} (h : ws.fold = (ws', accepted)) :
    ws'.active = ws.active ∧ ws'.duals = ws.duals ∧ ws'.saved = ws.saved := by
  unfold fold at h
  split at h
  · cases h
    exact ⟨rfl, rfl, rfl⟩
  · dsimp only at h
    split at h <;> cases h <;> exact ⟨rfl, rfl, rfl⟩

theorem label_fold {accepted : Bool} (h : ws.fold = (ws', accepted)) (k : Nat) :
    ws'.label k = ws.label k := by
  unfold label
  rw [(fold_keeps h).1]

theorem dual_fold {accepted : Bool} (h : ws.fold = (ws', accepted)) (k : Nat) :
    ws'.dual k = ws.dual k := by
  unfold dual
  rw [(fold_keeps h).2.1]

theorem count_fold (h : ws.fold = (ws', true)) : ws'.count = ws.count + 1 := by
  unfold fold at h
  split at h
  · cases h
  · dsimp only at h
    split at h <;> cases h
    rfl

theorem getOr_closeGap {β : Type} {l p count k : Nat} {v : Vector β l} {blank : β}
    (hcount : count < l) (hk : k < count) :
    Vec.getOr (closeGap v p count blank) k blank = Vec.getOr v (skip p k) blank := by
  have hkl : k < l := by omega
  have hskip : skip p k < l := by have := skip_le p k; omega
  unfold Vec.getOr
  rw [dif_pos hkl, dif_pos hskip, closeGap, Vec.get_ofFn]
  rcases Nat.lt_or_ge k p with hkp | hkp
  · rw [if_pos hkp]
    simp only [skip_of_lt hkp]
  · rw [if_neg (Nat.not_lt.mpr hkp), if_pos hk, Vec.getOr,
      dif_pos (show k + 1 < l by omega)]
    simp only [skip_of_le hkp]

theorem getOr_closeGap_of_ge {β : Type} {l p count k : Nat} {v : Vector β l} {blank : β}
    (hp : p < count) (hk : count ≤ k) :
    Vec.getOr (closeGap v p count blank) k blank =
      if k = count then blank else Vec.getOr v k blank := by
  unfold Vec.getOr
  split
  · rw [closeGap, Vec.get_ofFn, if_neg (show ¬ k < p by omega), if_neg (Nat.not_lt.mpr hk)]
  · split <;> rfl

theorem label_eraseAt {p k : Nat} (hroom : ws.count ≤ slots) (hk : k < ws.count) :
    (ws.eraseAt p).label k = ws.label (skip p k) :=
  getOr_closeGap (v := ws.active) (Nat.lt_succ_of_le hroom) hk

theorem dual_eraseAt {p k : Nat} (hroom : ws.count ≤ slots) (hk : k < ws.count) :
    (ws.eraseAt p).dual k = ws.dual (skip p k) :=
  getOr_closeGap (v := ws.duals) (Nat.lt_succ_of_le hroom) hk

/-! ## The names from a slot on -/

omit [Scalar α] in
theorem mem_labelsFrom {first : Nat} (hcount : ws.count ≤ slots + 1) {l : Label} :
    l ∈ ws.labelsFrom first ↔ ∃ k, first ≤ k ∧ k < ws.count ∧ ws.label k = l := by
  have hget (k : Nat) (hk : k < slots + 1) : ws.active[k] = ws.label k := by
    rw [label, dif_pos hk]
    rfl
  unfold labelsFrom
  rw [List.mem_iff_getElem]
  constructor
  · rintro ⟨j, hj, rfl⟩
    simp only [List.length_drop, List.length_take, Vector.length_toList] at hj
    refine ⟨first + j, by omega, by omega, ?_⟩
    simp only [List.getElem_drop, List.getElem_take, Vector.getElem_toList]
    rw [hget]
  · rintro ⟨k, hfirst, hk, rfl⟩
    refine ⟨k - first, ?_, ?_⟩
    · simp only [List.length_drop, List.length_take, Vector.length_toList]
      omega
    · simp only [List.getElem_drop, List.getElem_take, Vector.getElem_toList,
        Nat.add_sub_cancel' hfirst]
      rw [hget]

/-- The members are the names and dual values of the active slots. -/
theorem members_eq (hcount : ws.count ≤ slots + 1) :
    ws.members = (List.range ws.count).map fun k => (ws.label k, ws.dual k) := by
  have hlength : ws.members.length = ws.count := by
    simp [members, hcount]
  refine List.ext_getElem (by rw [hlength, List.length_map, List.length_range]) fun k hk _ => ?_
  have hk' : k < slots + 1 := by omega
  simp only [members, List.getElem_take, List.getElem_zip, List.getElem_map, List.getElem_range,
    Vector.getElem_toList, label, dual, Vec.extend_of_lt _ hk', dif_pos hk', Vec.get_eq_getElem]

/-! ## The slot that is found -/

omit [Scalar α]

/-- Whether slot `p` is the first active one, from slot `first` on, that holds a name. -/
structure IsFirst (ws : Workspace α n slots) (l : Label) (first p : Nat) : Prop where
  first_le : first ≤ p
  lt_count : p < ws.count
  label_eq : ws.label p = l
  earlier : ∀ k, first ≤ k → k < p → ws.label k ≠ l

variable {l : Label} {first p : Nat}

theorem position?_eq_some_iff : ws.position? l first = some p ↔ ws.IsFirst l first p := by
  rw [position?, List.find?_range'_eq_some, List.mem_range'_1]
  constructor
  · rintro ⟨hl, ⟨hfirst, hlast⟩, hearlier⟩
    refine ⟨hfirst, by omega, by simpa using hl, fun k hk hkp => ?_⟩
    simpa using hearlier k hk hkp
  · rintro ⟨hfirst, hlast, hl, hearlier⟩
    refine ⟨by simpa using hl, ⟨hfirst, by omega⟩, fun k hk hkp => ?_⟩
    simpa using hearlier k hk hkp

theorem position?_eq_none_iff (hcount : ws.count ≤ slots + 1) :
    ws.position? l first = none ↔ l ∉ ws.labelsFrom first := by
  rw [position?, List.find?_range'_eq_none, mem_labelsFrom hcount]
  constructor
  · rintro hnone ⟨k, hfirst, hlast, hl⟩
    simpa [hl] using hnone k hfirst (by omega)
  · intro hmissing k hfirst hlast
    have hl : ws.label k ≠ l := fun hl => hmissing ⟨k, hfirst, by omega, hl⟩
    simpa using hl

/-- A slot that is found holds the name that was searched for. -/
theorem position?_spec (h : ws.position? l first = some p) :
    first ≤ p ∧ p < ws.count ∧ ws.label p = l :=
  have hfirst := position?_eq_some_iff.mp h
  ⟨hfirst.first_le, hfirst.lt_count, hfirst.label_eq⟩

end Workspace

end ActiveSet

import ActiveSet.Proofs.Exact
/-
  What arrays hold

  A vector comes as an array of any shape with its entries in order
  (`Nested.Lists`), a matrix as an array of two axes (`Nested.Tabulates`). A
  matrix that is written as an array is read back as it was (`matrix_ofMat`).
-/

namespace ActiveSet

variable {α : Type} {m n : Nat}

/-- Whether an array of any shape lists the entries of a vector. -/
def Nested.Lists (input : Nested α) (v : Vector α n) : Prop :=
  ∃ t, input.tensor = .ok t ∧ t.flat? n = some v

/-- Whether an array is a matrix, by rows. -/
def Nested.Tabulates [Zero α] (input : Nested α) (A : Mat α m n) : Prop :=
  ∃ t, input.tensor = .ok t ∧ t.shape = [m, n] ∧ t.matrix m n = A

theorem Tensor.flat?_of_entries {t : Tensor α} {v : Vector α n} (h : t.entries = v.toList) :
    t.flat? n = some v := by
  obtain ⟨array, rfl⟩ := v
  obtain ⟨shape, entries, hlength⟩ := t
  cases h
  exact dif_pos rfl

/-- A vector that an array lists is all there is in the array. -/
theorem Nested.Lists.exists_flat {input : Nested α} {v : Vector α n} (h : input.Lists v) :
    ∃ t, input.tensor = .ok t ∧ (⟨t.size, t.flat⟩ : (k : Nat) × Vector α k) = ⟨n, v⟩ := by
  obtain ⟨t, ht, hflat⟩ := h
  unfold Tensor.flat? at hflat
  split at hflat
  · next hsize =>
    subst hsize
    cases hflat
    exact ⟨t, ht, rfl⟩
  · cases hflat

/-- The entries of rows of one length, one row after the other. -/
theorem Tensor.getElem?_flatMap_toList (rows : List (Vector α n)) (i : Fin rows.length)
    (j : Fin n) : (rows.flatMap Vector.toList)[i.val * n + j.val]? = some ((rows.get i).get j) := by
  induction rows with
  | nil => exact i.elim0
  | cons row rows ih =>
    rw [List.flatMap_cons]
    refine Fin.cases ?_ (fun i => ?_) i
    · have hfirst : (0 : Fin (row :: rows).length).val * n + j.val = j.val := by simp
      rw [hfirst, List.getElem?_append_left (by simp)]
      simp [Vec.get_eq_getElem]
    · have hlater : i.succ.val * n + j.val = n + (i.val * n + j.val) := by
        rw [Fin.val_succ, Nat.succ_mul]
        omega
      rw [hlater, List.getElem?_append_right (by simp), Vector.length_toList,
        Nat.add_sub_cancel_left]
      exact ih i

theorem Tensor.matrix_ofMat [Zero α] (A : Mat α m n) : (ofMat A).matrix m n = A := by
  refine Mat.ext_entry fun i j => ?_
  have hentry := getElem?_flatMap_toList A.rows.toList ⟨i.val, by simp⟩ j
  rw [matrix, Mat.entry_ofFn, ofMat, Array.getD_eq_getD_getElem?, List.getElem?_toArray]
  refine (congrArg (Option.getD · 0) hentry).trans ?_
  simp [Mat.entry, Vec.get_eq_getElem]

end ActiveSet

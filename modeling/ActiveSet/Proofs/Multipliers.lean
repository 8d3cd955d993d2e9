import ActiveSet.Proofs.Balance
import ActiveSet.Proofs.Bookkeeping
/-
  The multipliers of an answer

  An answer spreads the dual values of the slots over all constraints. Since
  no two slots hold the same name, each dual value is written once, and the
  combination of all normals with the multipliers is that of the active ones
  with their dual values (`combined_ofMembers`).
-/

namespace ActiveSet

variable {n e m slots : Nat}

theorem Problem.get_combine {k : Nat} (constraints : Vector (Constraint ℝ n) k)
    (weights : Vector ℝ k) : (Problem.combine constraints weights).get =
      ∑ j, weights.get j • (constraints.get j).normal.get := by
  funext i
  rw [Problem.combine, Vec.get_ofFn, foldl_add_eq_sum, zero_add, Finset.sum_apply]
  exact Finset.sum_congr rfl fun j _ => mul_comm _ _

theorem sum_set_smul {k : Nat} (weights : Vector ℝ k) (ν : Fin k → Fin n → ℝ) (i : Fin k) (u : ℝ) :
    ∑ j, (Vec.set weights i u).get j • ν j =
      ∑ j, weights.get j • ν j + (u - weights.get i) • ν i := by
  have hterm : ∀ j ∈ Finset.univ, (Vec.set weights i u).get j • ν j =
      weights.get j • ν j + if i = j then (u - weights.get i) • ν i else 0 := by
    intro j _
    rw [Vec.get_set]
    split
    · next hij =>
      subst hij
      rw [sub_smul, add_sub_cancel]
    · rw [add_zero]
  rw [Finset.sum_congr rfl hterm, Finset.sum_add_distrib, Finset.sum_ite_eq,
    if_pos (Finset.mem_univ i)]

namespace Multipliers

/-- The multiplier of the constraint with the given name. -/
def ofName (l : Multipliers ℝ e m) : Label → ℝ
  | .equality i => if h : i < e then l.equality.get ⟨i, h⟩ else 0
  | .inequality i => if h : i < m then l.inequality.get ⟨i, h⟩ else 0

/-- The combination of all normals with the multipliers. -/
noncomputable def combined (P : Problem ℝ n e m) (l : Multipliers ℝ e m) : Fin n → ℝ :=
  (Problem.combine P.equalities l.equality).get +
    (Problem.combine P.inequalities l.inequality).get

variable {P : Problem ℝ n e m} {l l' : Multipliers ℝ e m} {name : Label} {u : ℝ}

theorem ofName_eq (l : Multipliers ℝ e m) (name : Label) :
    l.ofName name = (l.ofLabel? name).getD 0 := by
  cases name with
  | equality i =>
    simp only [ofName, ofLabel?]
    split <;> rfl
  | inequality i =>
    simp only [ofName, ofLabel?]
    split <;> rfl

/-- Writing one multiplier leaves the others. -/
theorem ofName_of_record (h : l.record (name, u) = .ok l') {other : Label} (hne : other ≠ name) :
    l'.ofName other = l.ofName other := by
  rw [ofName_eq, ofName_eq, ofLabel?_record h, if_neg hne]

/-- Writing one multiplier moves the combination along its normal, by what it changes. -/
theorem combined_of_record (P : Problem ℝ n e m) (h : l.record (name, u) = .ok l') :
    l'.combined P = l.combined P + (u - l.ofName name) • P.normal name := by
  cases name with
  | equality i =>
    simp only [record] at h
    split at h
    · next hi =>
      cases h
      have hname : P.constraint? (.equality i) = some (P.equalities.get ⟨i, hi⟩) := dif_pos hi
      simp only [combined, Problem.get_combine, sum_set_smul, ofName, dif_pos hi,
        Problem.normal_of_constraint? hname]
      exact add_right_comm _ _ _
    · cases h
  | inequality i =>
    simp only [record] at h
    split at h
    · next hi =>
      cases h
      have hname : P.constraint? (.inequality i) = some (P.inequalities.get ⟨i, hi⟩) := dif_pos hi
      simp only [combined, Problem.get_combine, sum_set_smul, ofName, dif_pos hi,
        Problem.normal_of_constraint? hname]
      exact (add_assoc _ _ _).symm
    · cases h

/-- Writing the multipliers of distinct constraints that had none. -/
theorem combined_of_records {members : List (Label × ℝ)}
    (hdistinct : (members.map Prod.fst).Nodup) (hfresh : ∀ name ∈ members.map Prod.fst,
      l.ofName name = 0) (h : members.foldlM record l = .ok l') :
    l'.combined P = l.combined P + (members.map fun x => x.2 • P.normal x.1).sum := by
  induction members generalizing l with
  | nil =>
    cases h
    simp
  | cons x members ih =>
    obtain ⟨name, u⟩ := x
    rw [List.foldlM_cons] at h
    obtain ⟨l₁, hrecord, hrest⟩ := Program.ok_of_bind h
    rw [List.map_cons, List.nodup_cons] at hdistinct
    have hfresh₁ : ∀ other ∈ members.map Prod.fst, l₁.ofName other = 0 := fun other hother => by
      have hne : other ≠ name := fun heq => hdistinct.1 (heq ▸ hother)
      rw [ofName_of_record hrecord hne]
      exact hfresh other (List.mem_cons_of_mem _ hother)
    -- the name has not been written before, so writing it adds its term
    have hzero : l.ofName name = 0 := hfresh name List.mem_cons_self
    calc l'.combined P
        = l₁.combined P + (members.map fun x => x.2 • P.normal x.1).sum :=
          ih hdistinct.2 hfresh₁ hrest
      _ = l.combined P + u • P.normal name + (members.map fun x => x.2 • P.normal x.1).sum := by
          rw [combined_of_record P hrecord, hzero, sub_zero]
      _ = l.combined P + (((name, u) :: members).map fun x => x.2 • P.normal x.1).sum := by
          rw [List.map_cons, List.sum_cons, add_assoc]

end Multipliers

/-- The multipliers that the members of distinct slots give. -/
theorem combined_ofMembers {P : Problem ℝ n e m} {ws : Workspace ℝ n slots}
    {isActive : Vector Bool m} {l : Multipliers ℝ e m} (hcount : ws.count ≤ slots + 1)
    (hseating : Seating e ws.count ws.label isActive)
    (h : Multipliers.ofMembers ws.members = .ok l) :
    l.combined P = P.weighted ws.label ws.dual ws.count := by
  unfold Multipliers.ofMembers at h
  rw [ws.members_eq hcount] at h
  have hdistinct : (((List.range ws.count).map fun k => (ws.label k, ws.dual k)).map
      Prod.fst).Nodup := by
    rw [List.map_map]
    exact hseating.nodup_map List.nodup_range fun k hk => List.mem_range.mp hk
  have hnone (name : Label) : (Multipliers.none : Multipliers ℝ e m).ofName name = 0 := by
    cases name <;> simp [Multipliers.none, Multipliers.ofName]
  have hstart : (Multipliers.none : Multipliers ℝ e m).combined P = 0 := by
    simp [Multipliers.none, Multipliers.combined, Problem.get_combine]
  rw [Multipliers.combined_of_records hdistinct (fun name _ => hnone name) h, hstart, zero_add,
    List.map_map, Problem.weighted]
  clear h hdistinct
  induction ws.count with
  | zero => rfl
  | succ q ih =>
    rw [List.range_succ, List.map_append, List.sum_append, ih, Finset.sum_range_succ]
    simp

end ActiveSet

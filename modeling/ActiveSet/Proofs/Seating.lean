import ActiveSet.Proofs.Plan
/-
  Who sits in the slots

  The equalities met so far have the first slots, in their order; the slots
  behind them hold distinct inequalities, exactly those that are flagged as
  active (`Seating`). While a candidate is being added, its name stands in the
  slot after the active ones and its flag is down.

  `Machine.Standing` says this phase by phase, together with what else the
  control flow keeps: between two candidates the iterate is its own saved
  copy, the slacks that are looked at are those of the current point, and the
  violation at the saved point was too large to stop. `standing_of_course`
  proves it of every state of a solve.
-/

namespace ActiveSet

variable {e m : Nat}

/-- The names in the first `count` slots, with the first `met` for equalities. -/
structure Seating (met count : Nat) (label : Nat → Label) (isActive : Vector Bool m) : Prop where
  met_le : met ≤ count
  equality : ∀ k < met, label k = .equality k
  inequality : ∀ k, met ≤ k → k < count →
    ∃ i : Fin m, label k = .inequality i ∧ isActive.get i = true
  distinct : ∀ j < count, ∀ k < count, label j = label k → j = k
  complete : ∀ i, isActive.get i = true → ∃ k, met ≤ k ∧ k < count ∧ label k = .inequality i

namespace Seating

variable {met count : Nat} {label label' : Nat → Label} {isActive : Vector Bool m}

/-- Only the names in the active slots matter. -/
theorem congr (h : Seating met count label isActive) (hlabel : ∀ k < count, label' k = label k) :
    Seating met count label' isActive := by
  refine ⟨h.met_le, ?_, ?_, ?_, ?_⟩
  · intro k hk
    rw [hlabel k (lt_of_lt_of_le hk h.met_le)]
    exact h.equality k hk
  · intro k hmet hk
    rw [hlabel k hk]
    exact h.inequality k hmet hk
  · intro j hj k hk hjk
    rw [hlabel j hj, hlabel k hk] at hjk
    exact h.distinct j hj k hk hjk
  · intro i hi
    obtain ⟨k, hmet, hk, hki⟩ := h.complete i hi
    exact ⟨k, hmet, hk, by rw [hlabel k hk, hki]⟩

/-- An active slot does not hold an inequality whose flag is down. -/
theorem ne_of_inactive (h : Seating met count label isActive) {i : Fin m}
    (hi : isActive.get i = false) {k : Nat} (hk : k < count) : label k ≠ .inequality i := by
  intro hlabel
  rcases Nat.lt_or_ge k met with hkm | hkm
  · rw [h.equality k hkm] at hlabel
    cases hlabel
  · obtain ⟨j, hj, hactive⟩ := h.inequality k hkm hk
    rw [hlabel] at hj
    cases Fin.ext (Label.inequality.inj hj)
    rw [hi] at hactive
    cases hactive

/-- Distinct active slots hold distinct names. -/
theorem nodup_map (h : Seating met count label isActive) {slots : List Nat} (hslots : slots.Nodup)
    (hcount : ∀ k ∈ slots, k < count) : (slots.map label).Nodup :=
  hslots.map_on fun j hj k hk hjk => h.distinct j (hcount j hj) k (hcount k hk) hjk

/-- No active slot holds an equality that is still to be met. -/
theorem ne_equality (h : Seating met count label isActive) {i k : Nat} (hi : met ≤ i)
    (hk : k < count) : label k ≠ .equality i := by
  intro hlabel
  rcases Nat.lt_or_ge k met with hkm | hkm
  · rw [h.equality k hkm] at hlabel
    cases hlabel
    omega
  · obtain ⟨j, hj, -⟩ := h.inequality k hkm hk
    rw [hlabel] at hj
    cases hj

/-- The next equality is met, before any inequality is active. -/
theorem meet (h : Seating met met label isActive)
    (hlabel : ∀ k, label' k = if k = met then .equality met else label k) :
    Seating (met + 1) (met + 1) label' isActive := by
  have hseats : ∀ k < met + 1, label' k = .equality k := fun k hk => by
    rw [hlabel]
    split
    · next heq => rw [heq]
    · exact h.equality k (by omega)
  refine ⟨le_refl _, hseats, fun k hmet hk => by omega, ?_, ?_⟩
  · intro j hj k hk hjk
    rw [hseats j hj, hseats k hk] at hjk
    exact Label.equality.inj hjk
  · intro i hi
    obtain ⟨k, hmet, hk, -⟩ := h.complete i hi
    omega

/-- An inequality that is not active takes the next slot. -/
theorem push (h : Seating met count label isActive) {i : Fin m} (hi : isActive.get i = false)
    (hlabel : label count = .inequality i) :
    Seating met (count + 1) label (Vec.set isActive i true) := by
  have hold (j : Fin m) (hj : isActive.get j = true) : (Vec.set isActive i true).get j = true := by
    rw [Vec.get_set]
    split <;> [rfl; exact hj]
  refine ⟨Nat.le_succ_of_le h.met_le, h.equality, ?_, ?_, ?_⟩
  · intro k hmet hk
    rcases Nat.lt_succ_iff_lt_or_eq.mp hk with hk | rfl
    · obtain ⟨j, hj, hactive⟩ := h.inequality k hmet hk
      exact ⟨j, hj, hold j hactive⟩
    · exact ⟨i, hlabel, by rw [Vec.get_set, if_pos rfl]⟩
  · intro j hj k hk hjk
    rcases Nat.lt_succ_iff_lt_or_eq.mp hj with hj | rfl <;>
      rcases Nat.lt_succ_iff_lt_or_eq.mp hk with hk | rfl
    · exact h.distinct j hj k hk hjk
    · exact absurd (hjk.trans hlabel) (h.ne_of_inactive hi hj)
    · exact absurd (hjk.symm.trans hlabel) (h.ne_of_inactive hi hk)
    · rfl
  · intro j hj
    rw [Vec.get_set] at hj
    split at hj
    · next hij =>
      subst hij
      exact ⟨count, h.met_le, Nat.lt_succ_self _, hlabel⟩
    · obtain ⟨k, hmet, hk, hkj⟩ := h.complete j hj
      exact ⟨k, hmet, Nat.lt_succ_of_lt hk, hkj⟩

/-- An inequality leaves its slot, and its flag goes down. -/
theorem erase (h : Seating met count label isActive) {p : Nat} {i : Fin m} (hmet : met ≤ p)
    (hp : p < count) (hi : label p = .inequality i)
    (hlabel : ∀ k < count - 1, label' k = label (skip p k)) :
    Seating met (count - 1) label' (Vec.set isActive i false) := by
  have hskip {k : Nat} (hk : k < count - 1) : skip p k < count := by
    have := skip_le p k
    omega
  refine ⟨by omega, ?_, ?_, ?_, ?_⟩
  · intro k hk
    rw [hlabel k (by omega), skip_of_lt (by omega)]
    exact h.equality k hk
  · intro k hmetk hk
    have hmets : met ≤ skip p k := by
      unfold skip
      split <;> omega
    obtain ⟨j, hj, hactive⟩ := h.inequality _ hmets (hskip hk)
    refine ⟨j, by rw [hlabel k hk, hj], ?_⟩
    -- no other slot holds the name that leaves, so the flag there stays up
    have hij : i ≠ j := fun hij => by
      subst hij
      exact skip_ne p k (h.distinct _ (hskip hk) p hp (hj.trans hi.symm))
    rw [Vec.get_set, if_neg hij, hactive]
  · intro j hj k hk hjk
    rw [hlabel j hj, hlabel k hk] at hjk
    exact skip_injective p (h.distinct _ (hskip hj) _ (hskip hk) hjk)
  · intro j hj
    rw [Vec.get_set] at hj
    split at hj
    · cases hj
    · next hij =>
      obtain ⟨k, hmetk, hk, hkj⟩ := h.complete j hj
      have hkp : k ≠ p := fun hkp => by
        rw [hkp, hi] at hkj
        exact hij (Fin.ext (Label.inequality.inj hkj))
      -- the name that is kept has moved up if it was behind the emptied slot
      obtain ⟨l, hl, hlk⟩ := exists_skip hkp hk hp
      refine ⟨l, ?_, hl, by rw [hlabel l hl, hlk, hkj]⟩
      unfold skip at hlk
      split at hlk <;> omega

/-- Raises the flag of one name. -/
def raiseFlag (flags : Vector Bool m) (label : Label) : Except Fault (Vector Bool m) :=
  match label.position? m with
  | none => .error .indexOutOfRange
  | some i => .ok (Vec.set flags i true)

theorem flags_eq_foldlM (labels : List Label) :
    Iterate.flags m labels = labels.foldlM raiseFlag (Vector.replicate m false) := rfl

/-- The flags that are up after a list of inequalities are those that were up and those named. -/
theorem get_of_raiseFlags {labels : List Label}
    (hlabels : ∀ l ∈ labels, ∃ i : Fin m, l = .inequality i) {v flags : Vector Bool m}
    (h : labels.foldlM raiseFlag v = .ok flags) (i : Fin m) :
    flags.get i = true ↔ v.get i = true ∨ .inequality i.val ∈ labels := by
  induction labels generalizing v with
  | nil =>
    cases h
    simp
  | cons l labels ih =>
    obtain ⟨j, rfl⟩ := hlabels l List.mem_cons_self
    have hraise : raiseFlag v (.inequality j) = .ok (Vec.set v j true) := by
      simp [raiseFlag, Label.position?]
    rw [List.foldlM_cons, hraise] at h
    rw [ih (fun l hl => hlabels l (List.mem_cons_of_mem _ hl)) h, Vec.get_set, List.mem_cons,
      Label.inequality.injEq]
    by_cases hji : j = i
    · simp [hji]
    · have hij : ¬ i.val = j.val := fun hval => hji (Fin.ext hval.symm)
      simp [hji, hij]

/-- The flags that are read off the names are those of the seating. -/
theorem flags_eq (h : Seating met count label isActive) {labels : List Label}
    (hlabels : ∀ l, l ∈ labels ↔ ∃ k, met ≤ k ∧ k < count ∧ label k = l) {flags : Vector Bool m}
    (hflags : Iterate.flags m labels = .ok flags) : flags = isActive := by
  have hinequality : ∀ l ∈ labels, ∃ i : Fin m, l = .inequality i := fun l hl => by
    obtain ⟨k, hmet, hk, rfl⟩ := (hlabels l).mp hl
    obtain ⟨i, hi, -⟩ := h.inequality k hmet hk
    exact ⟨i, hi⟩
  rw [flags_eq_foldlM] at hflags
  apply Vec.ext_get
  intro i
  have hiff := get_of_raiseFlags hinequality hflags i
  have hnone : (Vector.replicate m false).get i = false := by simp [Vec.get_eq_getElem]
  rw [hlabels, hnone] at hiff
  rw [Bool.eq_iff_iff, hiff]
  constructor
  · rintro (hfalse | ⟨k, hmet, hk, hki⟩)
    · cases hfalse
    · obtain ⟨j, hj, hactive⟩ := h.inequality k hmet hk
      rw [hki] at hj
      cases Fin.ext (Label.inequality.inj hj)
      exact hactive
  · exact fun hi => .inr (h.complete i hi)

end Seating

variable {α : Type} {n slots : Nat}

/-- Every name in an active slot is that of a constraint. -/
theorem Seating.exists_constraint {met count : Nat} {label : Nat → Label} {isActive : Vector Bool m}
    (h : Seating met count label isActive) (P : Problem α n e m) (hmet : met ≤ e) {k : Nat}
    (hk : k < count) : ∃ c, P.constraint? (label k) = some c := by
  rcases Nat.lt_or_ge k met with hkm | hkm
  · rw [h.equality k hkm]
    exact ⟨_, P.constraint?_equality ⟨k, lt_of_lt_of_le hkm hmet⟩⟩
  · obtain ⟨i, hi, -⟩ := h.inequality k hkm hk
    rw [hi]
    exact ⟨_, P.constraint?_inequality i⟩

/-! ## Where a solve stands -/

variable [Scalar α]

theorem Problem.get_defects (P : Problem α n e m) (x : Vector α n) (i : Fin e) :
    (P.defects x).get i = (P.equalities.get i).slack x := by
  simp [Problem.defects, Vec.get_eq_getElem]

/-- The sum of the negative slacks at a point. -/
def Problem.infeasibilityAt (P : Problem α n e m) (x : Vector α n) : α :=
  Vec.sum ((P.slacks x).map fun s => Scalar.minimum s 0)

namespace Iterate

/-- The first `met` slots hold equalities, the others the flagged inequalities. -/
structure Seated (met : Nat) (it : Iterate α n slots m) : Prop where
  count_le : it.workspace.count ≤ slots + 1
  seating : Seating met it.workspace.count it.workspace.label it.isActive

/-- An iterate at which a candidate may be chosen. -/
structure Rests (P : Problem α n e m) (tolerance : α) (it : Iterate α n slots m) : Prop
    extends Seated e it where
  saved : it.snapshot = it.workspace.saved
  measured : it.slack = P.slacks it.point
  violated : Scalar.le (Scalar.abs (P.infeasibilityAt it.point)) tolerance = false

/-- An iterate at which a candidate is being added. -/
structure Adds (P : Problem α n e m) (tolerance : α) (candidate : Fin m)
    (it : Iterate α n slots m) : Prop where
  count_le : it.workspace.count ≤ slots
  seating : Seating e it.workspace.count it.workspace.label it.isActive
  label_eq : it.workspace.label it.workspace.count = .inequality candidate
  inactive : it.isActive.get candidate = false
  measured : it.slack.get candidate = (P.inequalities.get candidate).slack it.point
  saved_count_le : it.workspace.saved.count ≤ slots + 1
  saved_seating : ∃ flags : Vector Bool m,
    Seating e it.workspace.saved.count it.workspace.saved.label flags
  violated :
    Scalar.le (Scalar.abs (P.infeasibilityAt it.workspace.saved.point)) tolerance = false

variable {P : Problem α n e m} {tolerance : α} {it it' : Iterate α n slots m}

omit [Scalar α] in
/-- The names behind the equalities are those of the flagged inequalities. -/
theorem Seated.mem_labelsFrom_iff (h : it.Seated e) (i : Fin m) :
    .inequality i.val ∈ it.workspace.labelsFrom e ↔ it.isActive.get i = true := by
  rw [Workspace.mem_labelsFrom h.count_le]
  constructor
  · rintro ⟨k, hmet, hk, hki⟩
    obtain ⟨j, hj, hactive⟩ := h.seating.inequality k hmet hk
    rw [hki] at hj
    cases Fin.ext (Label.inequality.inj hj)
    exact hactive
  · exact h.seating.complete i

theorem get_slacks (P : Problem α n e m) (x : Vector α n) (i : Fin m) :
    (P.slacks x).get i = (P.inequalities.get i).slack x := by
  simp [Problem.slacks, Vec.get_eq_getElem]

/-- An equality that is met is named in the slot after the active ones. -/
theorem Met.names {i : Fin e} (h : it.Met P i it') :
    it.workspace.count ≤ slots ∧ it'.workspace.count = it.workspace.count + 1 ∧
      it'.isActive = it.isActive ∧ ∀ k, it'.workspace.label k =
        if k = it.workspace.count then .equality i else it.workspace.label k := by
  obtain ⟨hc, hws, hdirection, hstep, hplace, hfold⟩ := h
  rename_i c ws ws₁ ws₂ direction step
  subst hws
  have hroom := Workspace.count_place_le hplace
  obtain ⟨_, hws₁⟩ := Workspace.place_ok hplace
  refine ⟨hroom, ?_, rfl, ?_⟩
  · show ws₂.count = it.workspace.count + 1
    rw [Workspace.count_fold hfold, hws₁]
    rfl
  · intro k
    show ws₂.label k = _
    rw [Workspace.label_fold hfold, Workspace.label_place hplace]
    rfl

theorem Met.seated {i : Fin e} (h : it.Met P i it') (hcount : it.workspace.count = i)
    (hseated : it.Seated i) : it'.workspace.count = i + 1 ∧ it'.Seated (i + 1) := by
  obtain ⟨hroom, hgrown, hactive, hlabel⟩ := h.names
  rw [hcount] at hroom hgrown
  have hseating : Seating (i + 1) (i + 1) it'.workspace.label it.isActive := by
    have hold := hseated.seating
    rw [hcount] at hold
    apply hold.meet
    intro k
    rw [hlabel, hcount]
  refine ⟨hgrown, ?_, ?_⟩
  · rw [hgrown]
    exact Nat.succ_le_succ hroom
  · rw [hgrown, hactive]
    exact hseating

theorem Rests.chosen (h : it.Rests P tolerance) {ws : Workspace α n slots}
    {excluded : Vector Bool m} {candidate : Fin m} {events : List (Event α)}
    (hcandidate : it.mostViolated excluded = some candidate)
    (hplace : it.workspace.place (.inequality candidate) 0 = .ok ws) :
    Adds P tolerance candidate { it with workspace := ws, events } := by
  have hchosen := isCandidate_of_mostViolated hcandidate
  simp only [isCandidate, Bool.and_eq_true, Bool.not_eq_true'] at hchosen
  obtain ⟨hcount, hws⟩ := Workspace.place_ok hplace
  have hsame : ws.count = it.workspace.count := by rw [hws]
  have hsaved : ws.saved = it.workspace.saved := by rw [hws]
  refine ⟨?_, ?_, ?_, hchosen.1.1, ?_, ?_, ?_, ?_⟩
  · show ws.count ≤ slots
    omega
  · show Seating e ws.count ws.label it.isActive
    rw [hsame]
    exact h.seating.congr fun k hk => by
      rw [Workspace.label_place hplace, if_neg (Nat.ne_of_lt hk)]
  · show ws.label ws.count = _
    rw [Workspace.label_place hplace, if_pos hsame]
  · show it.slack.get candidate = _
    rw [h.measured, get_slacks]
  · show ws.saved.count ≤ slots + 1
    rw [hsaved, ← h.saved]
    exact h.count_le
  · refine ⟨it.isActive, ?_⟩
    show Seating e ws.saved.count ws.saved.label it.isActive
    rw [hsaved, ← h.saved]
    exact h.seating
  · show Scalar.le (Scalar.abs (P.infeasibilityAt ws.saved.point)) tolerance = false
    rw [hsaved, ← h.saved]
    exact h.violated

/-- What a pass drops sits in a slot behind the equalities. -/
theorem Adds.dropped_slot {candidate : Fin m} (h : it.Adds P tolerance candidate)
    {ws : Workspace α n slots} {direction : Vector α ws.count} {step slack curvature : α}
    {label : Label} {i : Fin m} {p : Nat} {v : Vector α n} (hws : ws = it.workspace.aim v)
    (hplan : ws.plan direction e slack curvature = .dual step label ∨
      ws.plan direction e slack curvature = .partway step label)
    (hlabel : label.position? m = some i)
    (hp : (ws.shift step direction).position? label e = some p) :
    e ≤ p ∧ p < it.workspace.count ∧ it.workspace.label p = .inequality i ∧
      label = .inequality i := by
  subst hws
  obtain ⟨ratio, hblock⟩ := Workspace.blocking_of_plan hplan
  -- only slots behind the equalities are searched, so what blocks is an inequality
  obtain ⟨k, hek, hk⟩ := Workspace.blocks_of_blocking hblock
  obtain ⟨j, hj, -⟩ := h.seating.inequality k hek hk.lt_count
  obtain ⟨hep, hpc, hpl⟩ := Workspace.position?_spec hp
  have hlabelj : label = .inequality j := hk.label_eq.symm.trans hj
  have hij : j = i := by
    rw [hlabelj] at hlabel
    simpa [Label.position?] using hlabel
  subst hij
  exact ⟨hep, hpc, hpl.trans hlabelj, hlabelj⟩

/-- What a pass that drops a constraint leaves in the slots. -/
theorem Adds.erase {candidate i : Fin m} {p : Nat} {step : α} {v : Vector α n}
    {ws : Workspace α n slots} {direction : Vector α ws.count} (h : it.Adds P tolerance candidate)
    (hws : ws = it.workspace.aim v) (hep : e ≤ p) (hp : p < it.workspace.count)
    (hi : it.workspace.label p = .inequality i) {point : Vector α n} {value : α}
    {slack : Vector α m} {events : List (Event α)}
    (hslack : slack.get candidate = (P.inequalities.get candidate).slack point) :
    Adds P tolerance candidate
      { it with
        workspace := (ws.shift step direction).eraseAt p
        point, value, slack
        isActive := Vec.set it.isActive i false
        events } := by
  subst hws
  have hroom : ((it.workspace.aim v).shift step direction).count ≤ slots := h.count_le
  have hmoved : ∀ k < it.workspace.count,
      (((it.workspace.aim v).shift step direction).eraseAt p).label k =
        it.workspace.label (skip p k) := fun _ hk => Workspace.label_eraseAt hroom hk
  refine ⟨?_, h.seating.erase hep hp hi fun k hk => hmoved k (by omega), ?_, ?_, hslack,
    h.saved_count_le, h.saved_seating, h.violated⟩
  · show it.workspace.count - 1 ≤ slots
    have := h.count_le
    omega
  · show (((it.workspace.aim v).shift step direction).eraseAt p).label (it.workspace.count - 1) = _
    rw [hmoved _ (by omega), skip_of_le (by omega), Nat.sub_add_cancel (by omega)]
    exact h.label_eq
  · show (Vec.set it.isActive i false).get candidate = false
    rw [Vec.get_set]
    split
    · rfl
    · exact h.inactive

theorem Dropped.adds {candidate : Fin m} (h : it.Dropped P candidate it')
    (hadds : it.Adds P tolerance candidate) : it'.Adds P tolerance candidate := by
  cases h with
  | dual hc hws hdirection hplan hlabel hp hroom =>
    obtain ⟨hep, hpc, hi, -⟩ := hadds.dropped_slot hws (.inl hplan) hlabel hp
    exact hadds.erase hws hep hpc hi hadds.measured
  | partway hc hws hdirection hplan hlabel hp hroom hpoint =>
    obtain ⟨hep, hpc, hi, -⟩ := hadds.dropped_slot hws (.inr hplan) hlabel hp
    apply hadds.erase hws hep hpc hi
    rw [Vec.get_set, if_pos rfl, hc]

/-- A pass that ends with a fold changes neither the names nor the saved copy. -/
theorem Reached.keeps {candidate : Fin m} {accepted : Bool}
    (h : it.Reached P candidate accepted it') :
    (∀ k, it'.workspace.label k = it.workspace.label k) ∧
      it'.workspace.saved = it.workspace.saved ∧ it'.isActive = it.isActive ∧
        (accepted = true → it'.workspace.count = it.workspace.count + 1) := by
  obtain ⟨hc, hws, hdirection, hplan, hfold⟩ := h
  rename_i c ws ws₁ direction step events
  subst hws
  refine ⟨?_, (Workspace.fold_keeps hfold).2.2, rfl, ?_⟩
  · intro k
    show ws₁.label k = _
    rw [Workspace.label_fold hfold]
    rfl
  · intro haccepted
    subst haccepted
    have hcount := Workspace.count_fold hfold
    exact hcount

end Iterate

namespace Machine

variable {P : Problem α n e m} {limit : Nat} {tolerance : α} {s s' : Machine α n slots m}

/-- What the control flow keeps, phase by phase. -/
def Standing (P : Problem α n e m) (tolerance : α) (s : Machine α n slots m) : Prop :=
  match s.phase with
  | .equality i => i ≤ e ∧ s.iterate.workspace.count = i ∧ s.iterate.Seated i
  | .head => s.iterate.Seated e
  | .select _ => s.iterate.Rests P tolerance
  | .pass candidate _ _ => s.iterate.Adds P tolerance candidate

/-- In every phase the names of the active constraints are seated. -/
theorem Standing.exists_seating (h : Standing P tolerance s) :
    ∃ met ≤ e, Seating met s.iterate.workspace.count s.iterate.workspace.label
      s.iterate.isActive := by
  unfold Standing at h
  split at h
  · exact ⟨_, h.1, h.2.2.seating⟩
  · exact ⟨e, le_refl _, h.seating⟩
  · exact ⟨e, le_refl _, h.toSeated.seating⟩
  · exact ⟨e, le_refl _, h.seating⟩

/-- Nothing is active before the first equality is met. -/
theorem Standing.count_eq_zero (h : Standing P tolerance s) (hphase : s.phase = .equality 0) :
    s.iterate.workspace.count = 0 := by
  rw [Standing, hphase] at h
  exact h.2.1

theorem standing_start (P : Problem α n e m) (tolerance : α) (inverse : Mat α n n)
    (point : Vector α n) (workspace : Workspace α n slots) :
    Standing P tolerance (P.start inverse point workspace) := by
  refine ⟨Nat.zero_le _, rfl, Nat.zero_le _, ?_⟩
  show Seating 0 0 _ (Vector.replicate m false)
  refine ⟨le_refl _, fun k hk => absurd hk (Nat.not_lt_zero k),
    fun k _ hk => absurd hk (Nat.not_lt_zero k), fun j hj => absurd hj (Nat.not_lt_zero j), ?_⟩
  intro i hi
  simp [Vec.get_eq_getElem] at hi

theorem standing_of_leads (h : Leads P limit tolerance s s') (hs : Standing P tolerance s) :
    Standing P tolerance s' := by
  cases h with
  | @met it it' i iterations evaluations hmet =>
    obtain ⟨-, hcount, hseated⟩ := hs
    exact ⟨i.isLt, hmet.seated hcount hseated⟩
  | allMet hi =>
    obtain ⟨hle, -, hseated⟩ := hs
    rw [le_antisymm hle hi] at hseated
    exact hseated
  | begun hit hviolated hlimit =>
    subst hit
    exact ⟨⟨hs.count_le, hs.seating⟩, rfl, rfl, hviolated⟩
  | chosen hcandidate hplace fresh =>
    exact hs.chosen hcandidate hplace
  | dropped hdropped => exact hdropped.adds hs
  | @added it it' excluded candidate fresh iterations evaluations hreached =>
    change it.Adds P tolerance candidate at hs
    obtain ⟨hlabel, -, hactive, hcount⟩ := hreached.keeps
    constructor
    · show it'.workspace.count ≤ slots + 1
      rw [hcount rfl]
      exact Nat.succ_le_succ hs.count_le
    · show Seating e it'.workspace.count it'.workspace.label (Vec.set it'.isActive candidate true)
      rw [hcount rfl, hactive]
      exact (hs.seating.push hs.inactive hs.label_eq).congr fun k _ => hlabel k
  | @undone it it' excluded isActive candidate fresh iterations evaluations events hreached
      hflags =>
    change it.Adds P tolerance candidate at hs
    obtain ⟨-, hsaved, -, -⟩ := hreached.keeps
    obtain ⟨flags, hseating⟩ := hs.saved_seating
    have hcount := hs.saved_count_le
    have hviolated := hs.violated
    rw [← hsaved] at hseating hcount hviolated
    have hnames (l : Label) : l ∈ it'.undo.workspace.labelsFrom e ↔
        ∃ k, e ≤ k ∧ k < it'.workspace.saved.count ∧ it'.workspace.saved.label k = l := by
      have hundone : it'.undo.workspace.count ≤ slots + 1 := hcount
      exact Workspace.mem_labelsFrom hundone
    -- the flags are read off the names again, and come out as they were saved
    obtain rfl : isActive = flags := hseating.flags_eq hnames hflags
    exact ⟨⟨hcount, hseating⟩, rfl, rfl, hviolated⟩

theorem standing_of_course {start : Machine α n slots m} {history : List (Admission α n slots m)}
    (hstart : Standing P tolerance start) (h : Course P limit tolerance start history s) :
    Standing P tolerance s := by
  induction h with
  | start => exact hstart
  | next _ hstep ih => exact standing_of_leads (leads_of_step hstep) ih

end Machine

end ActiveSet

import ActiveSet.Proofs.Columns
import ActiveSet.Proofs.Extended
/-
  The three records of the active set

  Which inequalities are active is recorded three times: by the names in the
  slots, by the flags, and by the number of active constraints. `Recorded` says
  that the three agree, and `Handled` what else holds while a candidate is
  being added. Neither depends on what the arithmetic gives: no law of the
  scalars is used, so a comparison may come out either way wherever a solve
  makes one.

  What follows is that no slot is sought in vain. A pass drops a constraint
  only where one blocks, the constraint is found behind the equalities
  (`Adds.exists_delete`), and a solve fails for two reasons only: a zero on the
  diagonal of the triangle, or an equality that depends on those before it
  (`fault_of_step`).
-/

namespace ActiveSet

variable {e m : Nat}

/-! ## Counting the slots -/

/-- Behind the equalities there are as many names as flags are up. -/
theorem Seating.count_eq {met count : Nat} {label : Nat → Label} {isActive : Vector Bool m}
    (h : Seating met count label isActive) :
    count = met + (Finset.univ.filter fun i => isActive.get i = true).card := by
  have hnames : (Finset.Ico met count).image label =
      (Finset.univ.filter fun i => isActive.get i = true).image
        fun i : Fin m => Label.inequality i := by
    ext l
    simp only [Finset.mem_image, Finset.mem_Ico, Finset.mem_filter, Finset.mem_univ, true_and]
    constructor
    · rintro ⟨k, ⟨hmet, hk⟩, rfl⟩
      obtain ⟨i, hi, hactive⟩ := h.inequality k hmet hk
      exact ⟨i, hactive, hi.symm⟩
    · rintro ⟨i, hactive, rfl⟩
      obtain ⟨k, hmet, hk, hki⟩ := h.complete i hactive
      exact ⟨k, ⟨hmet, hk⟩, hki⟩
  have hslots : ((Finset.Ico met count).image label).card = count - met := by
    rw [Finset.card_image_of_injOn, Nat.card_Ico]
    intro j hj k hk hjk
    exact h.distinct j (Finset.mem_Ico.mp hj).2 k (Finset.mem_Ico.mp hk).2 hjk
  have hflags : Function.Injective fun i : Fin m => Label.inequality i := fun i j hij =>
    Fin.ext (Label.inequality.inj hij)
  rw [hnames, Finset.card_image_of_injective _ hflags] at hslots
  have := h.met_le
  omega

/-- There are never more active constraints than constraints. -/
theorem Seating.count_le {met count : Nat} {label : Nat → Label} {isActive : Vector Bool m}
    (h : Seating met count label isActive) : count ≤ met + m := by
  have hcard := Finset.card_le_univ (Finset.univ.filter fun i : Fin m => isActive.get i = true)
  rw [Fintype.card_fin] at hcard
  have := h.count_eq
  omega

/-- A constraint that is not active leaves a slot free. -/
theorem Seating.count_lt {met count : Nat} {label : Nat → Label} {isActive : Vector Bool m}
    (h : Seating met count label isActive) {i : Fin m} (hi : isActive.get i = false) :
    count < met + m := by
  have hfree : i ∉ Finset.univ.filter fun i => isActive.get i = true := by simp [hi]
  have hcard := Finset.card_lt_univ_of_notMem hfree
  rw [Fintype.card_fin] at hcard
  have := h.count_eq
  omega

/-- The flags of inequalities can be raised. -/
theorem Seating.exists_raiseFlags {labels : List Label}
    (hlabels : ∀ l ∈ labels, ∃ i : Fin m, l = .inequality i) (v : Vector Bool m) :
    ∃ flags, labels.foldlM raiseFlag v = .ok flags := by
  induction labels generalizing v with
  | nil => exact ⟨v, rfl⟩
  | cons l labels ih =>
    obtain ⟨i, rfl⟩ := hlabels l List.mem_cons_self
    have hraise : raiseFlag v (.inequality i) = .ok (Vec.set v i true) := by
      simp [raiseFlag, Label.position?]
    rw [List.foldlM_cons, hraise]
    exact ih (fun l hl => hlabels l (List.mem_cons_of_mem _ hl)) _

/-- The flags can be read off the names behind the equalities. -/
theorem Seating.exists_flags {met count : Nat} {label : Nat → Label} {isActive : Vector Bool m}
    (h : Seating met count label isActive) {labels : List Label}
    (hlabels : ∀ l ∈ labels, ∃ k, met ≤ k ∧ k < count ∧ label k = l) :
    ∃ flags, Iterate.flags m labels = .ok flags := by
  rw [flags_eq_foldlM]
  apply exists_raiseFlags
  intro l hl
  obtain ⟨k, hmet, hk, rfl⟩ := hlabels l hl
  obtain ⟨i, hi, -⟩ := h.inequality k hmet hk
  exact ⟨i, hi⟩

namespace Workspace

variable {α : Type} {n slots : Nat} {ws ws' : Workspace α n slots}

theorem place_ne_error (hroom : ws.count ≤ slots) {l : Label} {u : α} {fault : Fault} :
    ws.place l u ≠ .error fault := by
  rw [place, dif_pos (Nat.lt_succ_of_le hroom)]
  exact fun hfailed => by cases hfailed

/-- A name in an active slot is found. -/
theorem exists_position? {first k : Nat} (hfirst : first ≤ k) (hk : k < ws.count) :
    ∃ p, ws.position? (ws.label k) first = some p := by
  rw [← Option.isSome_iff_exists, position?, List.find?_isSome]
  refine ⟨k, ?_, by simp⟩
  rw [List.mem_range'_1]
  omega

/-- The names from a slot on, one slot after the other. -/
theorem labelsFrom_eq (hcount : ws.count ≤ slots + 1) (first : Nat) :
    ws.labelsFrom first = (List.range' first (ws.count - first)).map ws.label := by
  refine List.ext_getElem ?_ fun j hj _ => ?_
  · simp [labelsFrom, hcount]
  · simp only [labelsFrom, List.length_drop, List.length_take, Vector.length_toList] at hj
    have hslot : first + j < slots + 1 := by omega
    simp only [labelsFrom, List.getElem_drop, List.getElem_take, Vector.getElem_toList,
      List.getElem_map, List.getElem_range', one_mul, label, dif_pos hslot, Vec.get_eq_getElem]

variable [Scalar α]

/-- A full triangle takes no more. -/
theorem count_lt_of_fold (h : ws.fold = (ws', true)) : ws.count < n := by
  unfold fold at h
  split at h
  · cases h
  · next hroom => exact Nat.not_le.mp hroom

theorem fault_of_dualDirection {fault : Fault} (h : ws.dualDirection = .error fault) :
    fault = .singularTriangle := by
  unfold dualDirection at h
  dsimp only at h
  split at h <;> cases h
  rfl

end Workspace

/-! ## The move that is planned, with a number for what blocks -/

/-- Whether no finite number differs from itself by as much as the threshold. -/
def Scalar.NearItself (α : Type) [Scalar α] : Prop :=
  ∀ x : α, Scalar.isFinite x = true → Scalar.lt (Scalar.abs (x - x)) Scalar.epsilon = true

theorem Scalar.nearItself_real : Scalar.NearItself ℝ := fun x _ => by
  simp [Scalar.epsilon_pos]

/-- What is finite is a real number. -/
theorem Extended.nearItself : Scalar.NearItself Extended := fun x hx => by
  cases x with
  | real r => simp [real_sub, epsilon_real, Scalar.epsilon_pos]
  | top | bottom | nan => cases hx

/-- What to do about a violated constraint, with the number of the constraint to be dropped. -/
inductive NumberedMove (α : Type) where
  | stay
  | dual (step : α) (blocking : Int)
  | full (step : α)
  | partway (step : α) (blocking : Int)

namespace Move

variable {α : Type} {step : α} {blocking : Int}

/-- A move with a number in place of the name. -/
def numbered : Move α → NumberedMove α
  | .stay => .stay
  | .dual step l => .dual step l.code
  | .full step => .full step
  | .partway step l => .partway step l.code

theorem numbered_eq_dual {move : Move α} (h : move.numbered = .dual step blocking) :
    ∃ l : Label, l.code = blocking ∧ move = .dual step l := by
  cases move <;> cases h
  exact ⟨_, rfl, rfl⟩

theorem numbered_eq_partway {move : Move α} (h : move.numbered = .partway step blocking) :
    ∃ l : Label, l.code = blocking ∧ move = .partway step l := by
  cases move <;> cases h
  exact ⟨_, rfl, rfl⟩

end Move

namespace Workspace

variable {α : Type} [Scalar α] {n slots : Nat}

/-- The move as it is decided without looking at whether anything blocks: the number is -1 where
nothing does, and every finite step is compared with the full one. -/
def numberedPlan (ws : Workspace α n slots) (direction : Vector α ws.count) (first : Nat)
    (slack curvature : α) : NumberedMove α :=
  let block := ws.blocking direction first
  let blocking : Int := (block.map fun b => b.2.code).getD (-1)
  let full := ws.fullStep slack curvature
  match finiteStep (shorterStep (block.map Prod.fst) full), finiteStep full with
  | none, _ => .stay
  | some step, none => .dual step blocking
  | some step, some full =>
    if Scalar.lt (Scalar.abs (step - full)) Scalar.epsilon then .full step
    else .partway step blocking

/-- It is the same move, as long as a finite number does not differ from itself. -/
theorem numberedPlan_eq (hself : Scalar.NearItself α) (ws : Workspace α n slots)
    (direction : Vector α ws.count) (first : Nat) (slack curvature : α) :
    ws.numberedPlan direction first slack curvature =
      (ws.plan direction first slack curvature).numbered := by
  unfold Scalar.NearItself at hself
  unfold numberedPlan plan
  cases ws.blocking direction first with
  | some block =>
    obtain ⟨ratio, l⟩ := block
    dsimp only [Option.map_some]
    cases finiteStep (shorterStep (some ratio) (ws.fullStep slack curvature)) with
    | none => rfl
    | some step =>
      cases finiteStep (ws.fullStep slack curvature) with
      | none => rfl
      | some full =>
        dsimp only
        split <;> rfl
  | none =>
    dsimp only [Option.map_none]
    cases ws.fullStep slack curvature with
    | none => rfl
    | some full =>
      -- the step is the full one, if it is finite
      cases hfinite : Scalar.isFinite full <;> cases htop : Scalar.isBelowTop full <;>
        simp [shorterStep, finiteStep, Option.filter_some, hfinite, htop, hself, Move.numbered]

end Workspace

variable {α : Type} [Scalar α] {n slots : Nat}

/-! ## The records between two candidates and while one is being added -/

namespace Iterate

/-- The names, the flags and the number of active constraints record the same set. -/
structure Recorded (e : Nat) (it : Iterate α n slots m) : Prop where
  count_le : it.workspace.count ≤ n
  code : ∀ k < e, (it.workspace.label k).code = -((k : Int) + 1)
  seating : Seating e it.workspace.count it.workspace.label it.isActive

/-- The candidate has the slot after the active constraints, is not one of them, and what is
dropped for it is found. -/
structure Handled (P : Problem α n e m) (candidate : Fin m) (it : Iterate α n slots m) : Prop
    extends Recorded e it where
  last : it.workspace.label it.workspace.count = .inequality candidate
  fresh : ∀ k < it.workspace.count, it.workspace.label k ≠ .inequality candidate
  lowered : it.isActive.get candidate = false
  room : it.workspace.count + 1 ≤ e + m
  found : ∀ (c : Constraint α n) (direction : Vector α (it.workspace.aim c.normal).count)
    (step : α) (l : Label), c = P.inequalities.get candidate →
      ((it.workspace.aim c.normal).plan direction e (it.slack.get candidate)
          ((it.workspace.aim c.normal).curvature c) = .dual step l ∨
        (it.workspace.aim c.normal).plan direction e (it.slack.get candidate)
          ((it.workspace.aim c.normal).curvature c) = .partway step l) →
        (∃ i : Fin m, l = .inequality i) ∧
          ∃ ws', ((it.workspace.aim c.normal).shift step direction).delete l e = .ok ws'
  numbered : Scalar.NearItself α →
    ∀ (c : Constraint α n) (direction : Vector α (it.workspace.aim c.normal).count) (step : α)
      (blocking : Int), c = P.inequalities.get candidate →
        ((it.workspace.aim c.normal).numberedPlan direction e (it.slack.get candidate)
            ((it.workspace.aim c.normal).curvature c) = .dual step blocking ∨
          (it.workspace.aim c.normal).numberedPlan direction e (it.slack.get candidate)
            ((it.workspace.aim c.normal).curvature c) = .partway step blocking) →
          0 ≤ blocking ∧ ∃ ws', ((it.workspace.aim c.normal).shift step direction).delete
            (.ofCode blocking) e = .ok ws'

variable {P : Problem α n e m} {tolerance : α} {candidate : Fin m} {it it' : Iterate α n slots m}

/-- What a pass drops is found behind the equalities, and can be taken out. -/
theorem Adds.exists_delete (h : it.Adds P tolerance candidate) {ws : Workspace α n slots}
    {v : Vector α n} (hws : ws = it.workspace.aim v) {direction : Vector α ws.count}
    {step slack curvature : α} {l : Label}
    (hplan : ws.plan direction e slack curvature = .dual step l ∨
      ws.plan direction e slack curvature = .partway step l) :
    (∃ i : Fin m, l = .inequality i) ∧ ∃ ws', (ws.shift step direction).delete l e = .ok ws' := by
  subst hws
  obtain ⟨ratio, hblock⟩ := Workspace.blocking_of_plan hplan
  obtain ⟨k, hek, hk⟩ := Workspace.blocks_of_blocking hblock
  obtain ⟨i, hi, -⟩ := h.seating.inequality k hek hk.lt_count
  refine ⟨⟨i, hk.label_eq.symm.trans hi⟩, ?_⟩
  have hslot : ((it.workspace.aim v).shift step direction).label k = l := hk.label_eq
  obtain ⟨p, hp⟩ : ∃ p, ((it.workspace.aim v).shift step direction).position? l e = some p := by
    rw [← hslot]
    exact Workspace.exists_position? hek hk.lt_count
  have hroom : ((it.workspace.aim v).shift step direction).count ≤ slots := h.count_le
  refine ⟨((it.workspace.aim v).shift step direction).eraseAt p, ?_⟩
  simp only [Workspace.delete, hp, if_pos hroom]

theorem drop_ne_error {s : Iterate α n slots m} {ws : Workspace α n slots} {i : Fin m} {k : Nat}
    (h : s.workspace.delete (.inequality i) k = .ok ws) {failure : Fault × Iterate α n slots m} :
    s.drop (.inequality i) k ≠ .error failure := by
  have hposition : Label.position? (.inequality i) m = some i := by simp [Label.position?]
  simp only [drop, hposition, h]
  exact fun hfailed => by cases hfailed

/-- A pass fails only for want of a direction. -/
theorem Adds.dualDirection_of_failed (h : it.Adds P tolerance candidate) {fault : Fault}
    (hpass : it.pass P candidate = .failed fault it') :
    (it.workspace.aim (P.inequalities.get candidate).normal).dualDirection = .error fault := by
  unfold pass at hpass
  dsimp only at hpass
  split at hpass
  · next hdirection =>
    cases hpass
    exact hdirection
  · next direction hdirection =>
    split at hpass
    · cases hpass
    · next step l hplan =>
      obtain ⟨⟨i, rfl⟩, ws', hdelete⟩ := h.exists_delete rfl (.inl hplan)
      unfold dualStep at hpass
      split at hpass
      · next hfailed => exact absurd hfailed (drop_ne_error hdelete)
      · cases hpass
    · unfold foldIn at hpass
      split at hpass <;> cases hpass
    · next step l hplan =>
      obtain ⟨⟨i, rfl⟩, ws', hdelete⟩ := h.exists_delete rfl (.inr hplan)
      unfold partialStep at hpass
      split at hpass
      · next hfailed => exact absurd hfailed (drop_ne_error hdelete)
      · cases hpass

/-- The flags can be read off the saved names. -/
theorem Adds.exists_flags (h : it.Adds P tolerance candidate) {accepted : Bool}
    (hreached : it.Reached P candidate accepted it') :
    ∃ isActive, flags m (it'.undo.workspace.labelsFrom e) = .ok isActive := by
  obtain ⟨-, hsaved, -, -⟩ := hreached.keeps
  obtain ⟨up, hseating⟩ := h.saved_seating
  have hcount := h.saved_count_le
  rw [← hsaved] at hseating hcount
  have hundone : it'.undo.workspace.count ≤ slots + 1 := hcount
  exact hseating.exists_flags fun l hl => (Workspace.mem_labelsFrom hundone).mp hl

omit [Scalar α] in
theorem recorded_of_seating (hcount : it.workspace.count ≤ n)
    (h : Seating e it.workspace.count it.workspace.label it.isActive) : it.Recorded e := by
  refine ⟨hcount, ?_, h⟩
  intro k hk
  rw [h.equality k hk]
  exact Int.negSucc_eq k

theorem Adds.handled (h : it.Adds P tolerance candidate) (hcount : it.workspace.count ≤ n) :
    it.Handled P candidate := by
  refine ⟨recorded_of_seating hcount h.seating, h.label_eq, ?_, h.inactive,
    h.seating.count_lt h.inactive, ?_, ?_⟩
  · intro k hk
    exact h.seating.ne_of_inactive h.inactive hk
  · intro c direction step l _ hplan
    exact h.exists_delete rfl hplan
  · intro hself c direction step blocking _ hplan
    rw [Workspace.numberedPlan_eq hself] at hplan
    -- a number stands for what the plan names, and inequalities count up from zero
    have hnamed : ∃ l : Label, l.code = blocking ∧
        ((it.workspace.aim c.normal).plan direction e (it.slack.get candidate)
            ((it.workspace.aim c.normal).curvature c) = .dual step l ∨
          (it.workspace.aim c.normal).plan direction e (it.slack.get candidate)
            ((it.workspace.aim c.normal).curvature c) = .partway step l) := by
      rcases hplan with hdual | hpartway
      · obtain ⟨l, hl, hmove⟩ := Move.numbered_eq_dual hdual
        exact ⟨l, hl, .inl hmove⟩
      · obtain ⟨l, hl, hmove⟩ := Move.numbered_eq_partway hpartway
        exact ⟨l, hl, .inr hmove⟩
    obtain ⟨l, rfl, hmove⟩ := hnamed
    obtain ⟨⟨i, rfl⟩, hdelete⟩ := h.exists_delete rfl hmove
    refine ⟨Int.natCast_nonneg i.val, ?_⟩
    rw [Label.ofCode_code]
    exact hdelete

end Iterate

namespace Machine

variable {P : Problem α n e m} {limit : Nat} {tolerance : α} {s s' : Machine α n slots m}

/-- The records in every state in which a solve measures, chooses or works on a candidate. -/
structure Bookkept (P : Problem α n e m) (s : Machine α n slots m) : Prop where
  slots : e + m ≤ slots
  head : s.phase = .head → s.iterate.Recorded e
  select : ∀ excluded, s.phase = .select excluded → s.iterate.Recorded e
  pass : ∀ candidate excluded fresh, s.phase = .pass candidate excluded fresh →
    s.iterate.Handled P candidate

theorem Standing.bookkept (h : Standing P tolerance s) (hcount : s.iterate.workspace.count ≤ n)
    (hroom : e + m ≤ slots) : s.Bookkept P := by
  refine ⟨hroom, ?_, ?_, ?_⟩
  · intro hphase
    rw [Standing, hphase] at h
    exact Iterate.recorded_of_seating hcount h.seating
  · intro excluded hphase
    rw [Standing, hphase] at h
    exact Iterate.recorded_of_seating hcount h.toSeated.seating
  · intro candidate excluded fresh hphase
    rw [Standing, hphase] at h
    exact h.handled hcount

/-- There are never more active constraints than dimensions. -/
theorem upkeep_count {start : Machine α n slots m} (hphase : start.phase = .equality 0)
    (hstanding : Standing P tolerance start) :
    Upkeep P limit tolerance start (fun _ t => t.count ≤ n)
      fun _ _ it => it.snapshot.count ≤ n where
  origin := by
    show start.iterate.workspace.count ≤ n
    rw [hstanding.count_eq_zero hphase]
    exact Nat.zero_le n
  met {history s s' i} _ _ _ _ hmet := by
    generalize s'.iterate = it' at hmet
    cases hmet with
    | @intro c ws ws₁ ws₂ direction step hc hws hdirection hstep hplace hfold =>
      show ws₂.count ≤ n
      rw [Workspace.count_fold hfold]
      exact Workspace.count_lt_of_fold hfold
  chosen {history s excluded candidate ws events} _ _ h _ hplace := by
    obtain ⟨_, rfl⟩ := Workspace.place_ok hplace
    exact h
  dropped {history s it' candidate} _ _ _ h hdropped := by
    have hless : it'.workspace.count ≤ s.iterate.workspace.count := by
      cases hdropped with
      | dual hc hws =>
        subst hws
        exact Nat.sub_le _ 1
      | partway hc hws =>
        subst hws
        exact Nat.sub_le _ 1
    exact hless.trans h
  added {history s s' it' candidate isActive} _ _ _ _ hreached hit := by
    rw [hit]
    cases hreached with
    | @intro c ws ws₁ direction step events hc hws hdirection hplan hfold =>
      show ws₁.count ≤ n
      rw [Workspace.count_fold hfold]
      exact Workspace.count_lt_of_fold hfold

theorem fault_of_equalityStep {i : Fin e} (hroom : s.iterate.workspace.count ≤ slots)
    {fault : Fault} (h : s.equalityStep P i = .fail fault s') :
    fault = .singularTriangle ∨ fault = .dependentEquality i := by
  unfold equalityStep at h
  dsimp only at h
  split at h
  · next hdirection =>
    cases h
    exact .inl (Workspace.fault_of_dualDirection hdirection)
  · split at h
    · next hfailed =>
      refine absurd hfailed (Workspace.place_ne_error ?_)
      exact hroom
    · split at h
      · cases h
      · cases h
        exact .inr rfl

/-- Choosing a candidate does not fail: it is not active, so there is a slot for it. -/
theorem selectStep_ne_fail {excluded : Vector Bool m} (hrests : s.iterate.Rests P tolerance)
    (hroom : e + m ≤ slots) {fault : Fault} : s.selectStep excluded ≠ .fail fault s' := by
  intro h
  unfold selectStep at h
  split at h
  · split at h <;> cases h
  · next candidate hcandidate =>
    have hchosen := Iterate.isCandidate_of_mostViolated hcandidate
    simp only [Iterate.isCandidate, Bool.and_eq_true, Bool.not_eq_true'] at hchosen
    have hless := hrests.toSeated.seating.count_lt hchosen.1.1
    dsimp only at h
    split at h
    · next hfailed =>
      change (s.iterate.workspace.place (.inequality candidate) 0).map _ = _ at hfailed
      cases hplace : s.iterate.workspace.place (.inequality candidate) 0 with
      | error fault => exact absurd hplace (Workspace.place_ne_error (by omega))
      | ok ws =>
        rw [hplace] at hfailed
        cases hfailed
    · cases h

/-- Working on a candidate fails only where a pass does: the saved names are those of
constraints. -/
theorem failed_of_passStep {candidate : Fin m} {excluded : Vector Bool m}
    (hadds : s.iterate.Adds P tolerance candidate) {fault : Fault}
    (h : s.passStep P candidate excluded = .fail fault s') :
    ∃ it', s.iterate.pass P candidate = .failed fault it' := by
  unfold passStep at h
  rcases Iterate.pass_cases P candidate s.iterate with
    ⟨fault', it', hp⟩ | ⟨it', hp, -⟩ | ⟨it', hp, -⟩ | ⟨it', hp, -⟩ | ⟨it', hp, hreached⟩
  · rw [hp] at h
    cases h
    exact ⟨it', hp⟩
  · rw [hp] at h
    cases h
  · rw [hp] at h
    cases h
  · rw [hp] at h
    cases h
  · rw [hp] at h
    dsimp only at h
    split at h
    · next hfailed =>
      obtain ⟨isActive, hflags⟩ := hadds.exists_flags hreached
      cases hflags.symm.trans hfailed
    · cases h

/-- A solve with room for all constraints fails at a triangle or at an equality. -/
theorem fault_of_step (hs : Standing P tolerance s) (hroom : e + m ≤ slots) {fault : Fault}
    (h : s.step P limit tolerance = .fail fault s') :
    fault = .singularTriangle ∨ ∃ i, fault = .dependentEquality i := by
  obtain ⟨it, phase, iterations, evaluations⟩ := s
  cases phase with
  | equality i =>
    obtain ⟨-, hcount, -⟩ := hs
    simp only [step] at h
    split at h
    · next hi =>
      have hslot : it.workspace.count ≤ slots := by
        change it.workspace.count = i at hcount
        omega
      rcases fault_of_equalityStep hslot h with hsingular | hdependent
      · exact .inl hsingular
      · exact .inr ⟨i, hdependent⟩
    · cases h
  | head =>
    simp only [step, headStep] at h
    split at h
    · cases h
    · split at h <;> cases h
  | select excluded => exact absurd h (selectStep_ne_fail hs hroom)
  | pass candidate excluded fresh =>
    obtain ⟨it', hpass⟩ := failed_of_passStep hs h
    exact .inl (Workspace.fault_of_dualDirection (Iterate.Adds.dualDirection_of_failed hs hpass))

end Machine

/-! ## The answer -/

namespace Multipliers

omit [Scalar α]

/-- The multiplier of the constraint with the given name, if there is one. -/
def ofLabel? (l : Multipliers α e m) : Label → Option α
  | .equality i => if h : i < e then some (l.equality.get ⟨i, h⟩) else .none
  | .inequality i => if h : i < m then some (l.inequality.get ⟨i, h⟩) else .none

variable {l l' : Multipliers α e m}

theorem ofLabel?_record {name : Label} {u : α} (h : l.record (name, u) = .ok l') (other : Label) :
    l'.ofLabel? other = if other = name then some u else l.ofLabel? other := by
  cases name with
  | equality i =>
    simp only [record] at h
    split at h
    · next hi =>
      cases h
      cases other with
      | equality j =>
        by_cases hij : i = j
        · subst hij
          simp [ofLabel?, hi, Vec.get_set]
        · simp [ofLabel?, Vec.get_set, hij, Ne.symm hij]
      | inequality j => simp [ofLabel?]
    · cases h
  | inequality i =>
    simp only [record] at h
    split at h
    · next hi =>
      cases h
      cases other with
      | equality j => simp [ofLabel?]
      | inequality j =>
        by_cases hij : i = j
        · subst hij
          simp [ofLabel?, hi, Vec.get_set]
        · simp [ofLabel?, Vec.get_set, hij, Ne.symm hij]
    · cases h

/-- Writing the multipliers of distinct constraints: what is written stays, and the others keep
theirs. -/
theorem ofLabel?_records {members : List (Label × α)} (hdistinct : (members.map Prod.fst).Nodup)
    (h : members.foldlM record l = .ok l') :
    (∀ member ∈ members, l'.ofLabel? member.1 = some member.2) ∧
      ∀ name ∉ members.map Prod.fst, l'.ofLabel? name = l.ofLabel? name := by
  induction members generalizing l with
  | nil =>
    cases h
    exact ⟨fun _ hmember => absurd hmember List.not_mem_nil, fun _ _ => rfl⟩
  | cons member members ih =>
    obtain ⟨name, u⟩ := member
    rw [List.foldlM_cons] at h
    obtain ⟨l₁, hrecord, hrest⟩ := Program.ok_of_bind h
    rw [List.map_cons, List.nodup_cons] at hdistinct
    obtain ⟨hwritten, hkept⟩ := ih hdistinct.2 hrest
    refine ⟨List.forall_mem_cons.mpr ⟨?_, hwritten⟩, ?_⟩
    -- the name does not come again
    · rw [hkept name hdistinct.1, ofLabel?_record hrecord, if_pos rfl]
    · intro other hother
      rw [List.map_cons, List.mem_cons, not_or] at hother
      rw [hkept other hother.2, ofLabel?_record hrecord, if_neg hother.1]

end Multipliers

/-- What an answer says about which inequalities are active. -/
structure Solution.Recorded (answer : Solution α n e m) : Prop where
  nodup : answer.activeSet.Nodup
  length_le : answer.activeSet.length + e ≤ n
  inequality : ∀ l ∈ answer.activeSet, ∃ i : Fin m, l = .inequality i
  outside : ∀ i : Fin m, .inequality i.val ∉ answer.activeSet →
    answer.inequalityMultipliers.get i = 0

/-- Whether an answer is read off the slots of an iterate. -/
structure Solution.ReadOff (answer : Solution α n e m) (it : Iterate α n slots m) : Prop where
  activeSet : answer.activeSet =
    (List.range' e (it.workspace.count - e)).map it.workspace.label
  inequality : ∀ k, e ≤ k → k < it.workspace.count → ∀ i : Fin m,
    it.workspace.label k = .inequality i →
      answer.inequalityMultipliers.get i = it.workspace.dual k
  equality : ∀ i : Fin e, answer.equalityMultipliers.get i = it.workspace.dual i

namespace Program

variable {program : Program α} {limit : Int} {buffers : Option (Buffers α)}
  {answer : Solution α program.dimension program.equalityCount program.inequalityCount}
  {history : List (Admission α program.dimension slots program.inequalityCount)}
  {s last : Machine α program.dimension slots program.inequalityCount}

theorem room_le {workspace : Workspace α program.dimension slots}
    (h : program.room buffers = .ok ⟨slots, workspace⟩) : program.constraintCount ≤ slots := by
  unfold room at h
  cases buffers with
  | none =>
    cases h
    exact le_refl _
  | some b =>
    change (b.fit program).map _ = _ at h
    cases hfit : b.fit program with
    | error fault =>
      rw [hfit] at h
      cases h
    | ok ws =>
      rw [hfit] at h
      cases h
      unfold Buffers.fit at hfit
      split at hfit
      · split at hfit
        · cases hfit
        · next hroom => exact Nat.not_lt.mp hroom
      · cases hfit

theorem count_le_of_course (h : program.Course limit buffers history s) :
    s.iterate.workspace.count ≤ program.dimension := by
  obtain ⟨L, workspace, -, -, hcourse⟩ := h
  have hstanding := Machine.standing_start program.problem program.tolerance
    (Triangular.inverseLower L) (program.problem.unconstrainedPoint L) workspace
  exact ((Machine.upkeep_count rfl hstanding).holds rfl hstanding hcourse).throughout

theorem Concludes.activeSet_eq (h : program.Concludes limit buffers answer history last) :
    answer.activeSet = (List.range' program.equalityCount
      (last.iterate.workspace.count - program.equalityCount)).map last.iterate.workspace.label := by
  obtain ⟨hcount, -⟩ := h.seating
  obtain ⟨final, hends, hanswer⟩ := h.ends
  have hread (it : Iterate α program.dimension slots program.inequalityCount) :
      it.workspace.labelsFrom program.equalityCount =
        (it.snapshot.active.toList.take it.snapshot.count).drop program.equalityCount := rfl
  rw [(Solution.ofMachine_ok hanswer).2.2.2.1, hread, hends.snapshot, ← hread,
    Workspace.labelsFrom_eq hcount]

/-- The multipliers of an answer are the dual values in the slots; a constraint without a slot has
none. -/
theorem Concludes.ofLabel?_eq (h : program.Concludes limit buffers answer history last)
    {l : Multipliers α program.equalityCount program.inequalityCount}
    (hl : l = ⟨answer.equalityMultipliers, answer.inequalityMultipliers⟩) :
    (∀ k < last.iterate.workspace.count,
      l.ofLabel? (last.iterate.workspace.label k) = some (last.iterate.workspace.dual k)) ∧
    ∀ name, (∀ k < last.iterate.workspace.count, last.iterate.workspace.label k ≠ name) →
      l.ofLabel? name =
        (Multipliers.none : Multipliers α program.equalityCount program.inequalityCount).ofLabel?
          name := by
  obtain ⟨hcount, hseating⟩ := h.seating
  have hmembers := h.ofMembers
  rw [← hl, Multipliers.ofMembers, Workspace.members_eq hcount] at hmembers
  have hnames : ((List.range last.iterate.workspace.count).map fun k =>
      (last.iterate.workspace.label k, last.iterate.workspace.dual k)).map Prod.fst =
        (List.range last.iterate.workspace.count).map last.iterate.workspace.label :=
    List.map_map
  have hdistinct := hseating.nodup_map List.nodup_range fun k hk => List.mem_range.mp hk
  rw [← hnames] at hdistinct
  obtain ⟨hwritten, hkept⟩ := Multipliers.ofLabel?_records hdistinct hmembers
  constructor
  · intro k hk
    exact hwritten (last.iterate.workspace.label k, last.iterate.workspace.dual k)
      (List.mem_map_of_mem (List.mem_range.mpr hk))
  · intro name hname
    apply hkept
    rw [hnames]
    intro hmem
    obtain ⟨k, hk, hki⟩ := List.mem_map.mp hmem
    exact hname k (List.mem_range.mp hk) hki

/-- The active set and the multipliers of an answer are those of the slots, and the multipliers of
the inequalities that have no slot are zero. -/
theorem Concludes.readOff (h : program.Concludes limit buffers answer history last) :
    answer.ReadOff last.iterate ∧
      ∀ i : Fin program.inequalityCount, .inequality i.val ∉ answer.activeSet →
        answer.inequalityMultipliers.get i = 0 := by
  obtain ⟨-, hseating⟩ := h.seating
  obtain ⟨hwritten, hkept⟩ := h.ofLabel?_eq rfl
  refine ⟨⟨h.activeSet_eq, ?_, ?_⟩, ?_⟩
  · intro k _ hk i hi
    have hentry := hwritten k hk
    simp only [hi, Multipliers.ofLabel?, dif_pos i.isLt, Option.some.injEq] at hentry
    exact hentry
  · intro i
    have hentry := hwritten i (lt_of_lt_of_le i.isLt hseating.met_le)
    simp only [hseating.equality i i.isLt, Multipliers.ofLabel?, dif_pos i.isLt,
      Option.some.injEq] at hentry
    exact hentry
  · intro i hi
    have hentry := hkept (.inequality i.val) fun k hk hki => by
      -- a slot that holds an inequality lies behind the equalities
      have hbehind : program.equalityCount ≤ k := by
        by_contra hlt
        cases (hseating.equality k (not_le.mp hlt)).symm.trans hki
      exact hi (h.mem_activeSet.mpr ⟨k, hbehind, hk, hki⟩)
    simp only [Multipliers.ofLabel?, Multipliers.none, dif_pos i.isLt, Option.some.injEq] at hentry
    rw [hentry]
    exact Vector.getElem_replicate i.isLt

theorem Concludes.recorded (h : program.Concludes limit buffers answer history last) :
    answer.Recorded := by
  obtain ⟨hread, houtside⟩ := h.readOff
  obtain ⟨-, hseating⟩ := h.seating
  have hcount := count_le_of_course h.course
  refine ⟨?_, ?_, ?_, houtside⟩
  · rw [hread.activeSet]
    apply hseating.nodup_map (List.nodup_range' ..)
    intro k hk
    rw [List.mem_range'_1] at hk
    omega
  · rw [hread.activeSet, List.length_map, List.length_range']
    have := hseating.met_le
    omega
  · intro l hl
    obtain ⟨k, hmet, hk, rfl⟩ := h.mem_activeSet.mp hl
    obtain ⟨i, hi, -⟩ := hseating.inequality k hmet hk
    exact ⟨i, hi⟩

/-- The names, the flags and the number of active constraints agree in every state of a solve in
which it measures, chooses or works on a candidate, whatever the arithmetic. No step of a solve
looks for a slot in vain or past the end of the buffers; and the answer's active set and
multipliers are those of the slots. -/
theorem bookkeeping_of_solve (program : Program α) (limit : Int) (buffers : Option (Buffers α)) :
    (∀ (slots : Nat)
      (history : List (Admission α program.dimension slots program.inequalityCount))
      (s : Machine α program.dimension slots program.inequalityCount),
      program.Course limit buffers history s →
        s.Bookkept program.problem ∧
          ∀ fault s', program.step limit s = .fail fault s' →
            fault = .singularTriangle ∨ ∃ i, fault = .dependentEquality i) ∧
    ∀ (guess : Option (Guess α))
      (answer : Solution α program.dimension program.equalityCount program.inequalityCount),
      (program.solve guess limit buffers).outcome = .ok answer →
        answer.Recorded ∧
          (program.constraintCount ≠ 0 →
            ∃ (slots : Nat)
              (history : List (Admission α program.dimension slots program.inequalityCount))
              (last : Machine α program.dimension slots program.inequalityCount),
              program.Concludes limit buffers answer history last ∧
                answer.ReadOff last.iterate) := by
  constructor
  · intro slots history s hcourse
    have hstanding := standing_of_course hcourse
    have hcount := count_le_of_course hcourse
    obtain ⟨L, workspace, -, hroom, -⟩ := hcourse
    exact ⟨hstanding.bookkept hcount (room_le hroom), fun fault s' hfail =>
      Machine.fault_of_step hstanding (room_le hroom) hfail⟩
  · intro guess answer hanswer
    rcases unconstrained_or_concludes hanswer with ⟨L, -, hnone, rfl⟩ | ⟨slots, history, last,
      hconcludes⟩
    · refine ⟨⟨List.nodup_nil, ?_, fun l hl => absurd hl List.not_mem_nil, ?_⟩,
        fun hsome => absurd hnone hsome⟩
      · have hequalities : program.equalityCount = 0 := (Nat.add_eq_zero_iff.mp hnone).1
        show 0 + program.equalityCount ≤ program.dimension
        omega
      · intro i _
        exact Vector.getElem_replicate i.isLt
    · exact ⟨hconcludes.recorded, fun _ =>
        ⟨slots, history, last, hconcludes, hconcludes.readOff.1⟩⟩

/-- On the way to the second wall of a corner the first one is dropped by its number, and the second
one is recorded in its place. -/
theorem bookkeeping_of_solve_corner :
    (∃ (history : List (Admission ℝ 2 2 2)) (it : Iterate ℝ 2 2 2)
      (fresh : (Vector.replicate 2 false).get (1 : Fin 2) = false),
      (corner 1).Course 100 none history
          ⟨it, .pass (1 : Fin 2) (Vector.replicate 2 false) fresh, 2, 3⟩ ∧
        it.Handled (Problem.corner 1) 1 ∧
        let c := (Problem.corner 1).inequalities.get 1
        let ws := it.workspace.aim c.normal
        ∃ (direction : Vector ℝ ws.count) (step : ℝ) (ws' : Workspace ℝ 2 2),
          ws.numberedPlan direction 0 (it.slack.get 1) (ws.curvature c) = .partway step 0 ∧
            (ws.shift step direction).delete (.ofCode 0) 0 = .ok ws') ∧
    ∃ answer : Solution ℝ 2 0 2, ((corner 1).solve none 100 none).outcome = .ok answer ∧
      answer.Recorded ∧ .inequality 1 ∈ answer.activeSet ∧
        ∃ (slots : Nat) (history : List (Admission ℝ 2 slots 2)) (last : Machine ℝ 2 slots 2),
          (corner 1).Concludes 100 none answer history last ∧ answer.ReadOff last.iterate := by
  obtain ⟨hrun, hread⟩ := bookkeeping_of_solve (corner 1) 100 none
  constructor
  · obtain ⟨history, it, fresh, hcourse, hwall, hslack⟩ :=
      exists_pass_corner (le_refl 1) (show (2 : Int) ≤ 100 by decide)
    have hhandled : it.Handled (Problem.corner 1) 1 :=
      (hrun 2 history _ hcourse).1.pass (1 : Fin 2) _ fresh rfl
    have hnormal := (Problem.get_normal_corner 1).2
    obtain ⟨direction, -, hfalls⟩ := hwall.exists_direction one_pos hnormal
    have hplan := hwall.plan (le_refl 1) Scalar.far_unit hnormal hfalls
    rw [← hslack] at hplan
    have hnumbered := (Workspace.numberedPlan_eq Scalar.nearItself_real _ direction 0 _ _).trans
      (congrArg Move.numbered hplan)
    obtain ⟨-, ws', hdelete⟩ :=
      hhandled.numbered Scalar.nearItself_real _ direction _ 0 rfl (.inr hnumbered)
    exact ⟨history, it, fresh, hcourse, hhandled, direction, _, ws', hnumbered, hdelete⟩
  · obtain ⟨answer, history, last, hanswer, -, hconcludes, hcount, hlabel, -⟩ :=
      solve_corner (le_refl 1) Scalar.far_unit (show (2 : Int) ≤ 100 by decide)
    have hactive : .inequality 1 ∈ answer.activeSet :=
      hconcludes.mem_activeSet.mpr ⟨0, le_refl 0, hcount.symm ▸ Nat.one_pos, hlabel⟩
    obtain ⟨hrecorded, hreadOff⟩ := hread none answer hanswer
    exact ⟨answer, hanswer, hrecorded, hactive, hreadOff two_ne_zero⟩

end Program

end ActiveSet

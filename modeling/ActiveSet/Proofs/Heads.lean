import ActiveSet.Proofs.Answer
/-
  The order of the states of a run

  A state has one successor at most, so of two states that a run passes
  through one comes after the other (`Course.comparable`), and what is kept by
  every transition is kept from any state on. The counter of the iterations
  never falls, and it only rises from a head: a run that has begun `k`
  iterations has been at a head for each of them (`exists_head`).
-/

namespace ActiveSet

variable {α : Type} [Scalar α] {n e m slots : Nat}

namespace Machine

variable {P : Problem α n e m} {limit : Nat} {tolerance : α} {start s s' t : Machine α n slots m}
  {history history' later : List (Admission α n slots m)}

namespace Course

theorem trans (h : Course P limit tolerance start history s)
    (hlater : Course P limit tolerance s later t) :
    Course P limit tolerance start (later ++ history) t := by
  induction hlater with
  | start => exact h
  | next _ hstep ih =>
    rw [List.append_assoc]
    exact ih.next hstep

/-- Of two states of a run one comes after the other. -/
theorem comparable (h : Course P limit tolerance start history s)
    (h' : Course P limit tolerance start history' t) :
    (∃ later, Course P limit tolerance s later t) ∨
      ∃ later, Course P limit tolerance t later s := by
  induction h with
  | start => exact .inl ⟨history', h'⟩
  | @next history u s _ hstep ih =>
    rcases ih with ⟨later, hut⟩ | ⟨later, htu⟩
    · rcases hut.eq_or_step with ⟨-, rfl⟩ | ⟨v, later', hv, -, hvt⟩
      · exact .inr ⟨_, Course.start.next hstep⟩
      · cases hstep.symm.trans hv
        exact .inl ⟨later', hvt⟩
    · exact .inr ⟨_, htu.next hstep⟩

/-- A run is still where it starts, or has gone on from the next state. -/
theorem eq_or_of_next (h : Course P limit tolerance s history t)
    (hstep : s.step P limit tolerance = .next s') :
    t = s ∨ ∃ later, Course P limit tolerance s' later t := by
  rcases h.eq_or_step with ⟨-, rfl⟩ | ⟨u, later, hu, -, hlater⟩
  · exact .inl rfl
  · cases hstep.symm.trans hu
    exact .inr ⟨later, hlater⟩

end Course

/-! ## The iterations -/

/-- The counter of the iterations rises by one where an iteration begins, and nowhere else. -/
theorem Leads.iterations (h : Leads P limit tolerance s s') :
    s'.iterations = s.iterations ∨ (s.phase = .head ∧ s'.iterations = s.iterations + 1) := by
  cases h with
  | begun => exact .inr ⟨rfl, rfl⟩
  | met | allMet | chosen | dropped | added | undone => exact .inl rfl

theorem Course.iterations_le (h : Course P limit tolerance s later t) :
    s.iterations ≤ t.iterations := by
  induction h with
  | start => exact le_refl _
  | next _ hstep ih =>
    rcases (leads_of_step hstep).iterations with heq | ⟨-, heq⟩ <;> omega

/-- A run that has begun an iteration has been at its head. -/
theorem Course.exists_head (hnone : start.iterations = 0)
    (h : Course P limit tolerance start history s) {k : Nat} (hk : k < s.iterations) :
    ∃ earlier head, Course P limit tolerance start earlier head ∧ head.phase = .head ∧
      head.iterations = k := by
  induction h with
  | start => omega
  | @next history t t' hcourse hstep ih =>
    rcases (leads_of_step hstep).iterations with heq | ⟨hphase, heq⟩
    · exact ih (by omega)
    · rcases Nat.lt_or_ge k t.iterations with hlt | hge
      · exact ih hlt
      · exact ⟨history, t, hcourse, hphase, by omega⟩

/-- Once the equalities are met a run does not come back to them. -/
theorem Leads.past_equalities (h : Leads P limit tolerance s s')
    (hpast : ∀ i, s.phase ≠ .equality i) (i : Nat) : s'.phase ≠ .equality i := by
  cases h with
  | @met it it' j => exact absurd rfl (hpast j)
  | begun | allMet | chosen | dropped | added | undone => exact fun hphase => by cases hphase

theorem Course.past_equalities (h : Course P limit tolerance s later t)
    (hpast : ∀ i, s.phase ≠ .equality i) : ∀ i, t.phase ≠ .equality i := by
  induction h with
  | start => exact hpast
  | next _ hstep ih => exact (leads_of_step hstep).past_equalities ih

end Machine

namespace Program

variable {program : Program α} {limit : Int} {buffers : Option (Buffers α)}
  {history history' : List (Admission α program.dimension slots program.inequalityCount)}
  {s t : Machine α program.dimension slots program.inequalityCount}

/-- Whether a solve that is in the one state comes to the other. -/
def Follows (program : Program α) (limit : Int)
    (s t : Machine α program.dimension slots program.inequalityCount) : Prop :=
  ∃ later, Machine.Course program.problem limit.toNat program.tolerance s later t

theorem Course.trans {later : List (Admission α program.dimension slots program.inequalityCount)}
    (h : program.Course limit buffers history s)
    (hlater : Machine.Course program.problem limit.toNat program.tolerance s later t) :
    program.Course limit buffers (later ++ history) t := by
  obtain ⟨L, workspace, hfactor, hroom, hcourse⟩ := h
  exact ⟨L, workspace, hfactor, hroom, hcourse.trans hlater⟩

theorem Course.next (h : program.Course limit buffers history s)
    (hstep : program.step limit s = .next t) :
    program.Course limit buffers (Machine.admitted s t ++ history) t := by
  obtain ⟨L, workspace, hfactor, hroom, hcourse⟩ := h
  exact ⟨L, workspace, hfactor, hroom, hcourse.next hstep⟩

/-- Of two states of a solve one comes after the other. -/
theorem follows_or_follows (h : program.Course limit buffers history s)
    (h' : program.Course limit buffers history' t) :
    program.Follows limit s t ∨ program.Follows limit t s := by
  obtain ⟨L, workspace, hfactor, hroom, hcourse⟩ := h
  obtain ⟨L', workspace', hfactor', hroom', hcourse'⟩ := h'
  cases hfactor.symm.trans hfactor'
  cases hroom.symm.trans hroom'
  exact hcourse.comparable hcourse'

/-- A solve that has begun an iteration has been at its head. -/
theorem exists_head (h : program.Course limit buffers history s) {k : Nat}
    (hk : k < s.iterations) :
    ∃ (earlier : List (Admission α program.dimension slots program.inequalityCount))
      (head : Machine α program.dimension slots program.inequalityCount),
      program.Course limit buffers earlier head ∧ head.phase = .head ∧ head.iterations = k := by
  obtain ⟨L, workspace, hfactor, hroom, hcourse⟩ := h
  obtain ⟨earlier, head, hbefore, hphase, hcounted⟩ := hcourse.exists_head rfl hk
  exact ⟨earlier, head, ⟨L, workspace, hfactor, hroom, hbefore⟩, hphase, hcounted⟩

end Program

end ActiveSet

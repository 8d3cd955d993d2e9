import ActiveSet.Proofs.Seating
/-
  What an answer says about the state it was read off

  A solve ends at the head of an iteration, when a candidate is to be chosen,
  or in the middle of an iteration; nothing that an answer is read off changes
  in the last transition (`Ends.snapshot`). `Program.Concludes` names the
  course behind an answer, and every answer of a program with constraints has
  one (`concludes_of_solve`) and only one (`Concludes.unique`). By then all
  equalities are in their slots (`Concludes.seating`), and the active set is the
  list of the others.
-/

namespace ActiveSet

variable {α : Type} [Scalar α] {n e m slots : Nat}

namespace Machine

variable {P : Problem α n e m} {limit : Nat} {tolerance : α} {s s' : Machine α n slots m}
  {status : Status}

/-- The last transition changes nothing that an answer is read off. -/
theorem Ends.snapshot (h : Ends P limit tolerance s status s') :
    s'.iterate.snapshot = s.iterate.snapshot := by
  cases h with
  | near _ => rfl
  | limit _ => rfl
  | exhausted _ _ => rfl
  | degenerate _ => rfl
  | stuck hstuck =>
    cases hstuck with
    | intro hc hws _ _ =>
      subst hws
      rfl

theorem Ends.iterations (h : Ends P limit tolerance s status s') :
    s'.iterations = s.iterations := by
  cases h <;> rfl

/-- A solve that ends with an answer has all its equalities in their slots. -/
theorem Ends.seating (h : Ends P limit tolerance s status s') (hs : Standing P tolerance s) :
    s.iterate.workspace.count ≤ slots + 1 ∧
      Seating e s.iterate.workspace.count s.iterate.workspace.label s.iterate.isActive := by
  cases h with
  | near _ => exact ⟨hs.count_le, Iterate.Seated.seating hs⟩
  | limit _ => exact ⟨hs.count_le, Iterate.Seated.seating hs⟩
  | exhausted _ _ => exact ⟨hs.count_le, hs.toSeated.seating⟩
  | degenerate _ => exact ⟨hs.count_le, hs.toSeated.seating⟩
  | stuck _ => exact ⟨Nat.le_succ_of_le hs.count_le, Iterate.Adds.seating hs⟩

end Machine

/-- What is read off a state. -/
theorem Solution.ofMachine_ok {P : Problem α n e m} {status : Status} {s : Machine α n slots m}
    {answer : Solution α n e m} (h : Solution.ofMachine P status s = .ok answer) :
    answer.status = status ∧ answer.point = s.iterate.point ∧ answer.value = s.iterate.value ∧
      answer.activeSet = s.iterate.workspace.labelsFrom e ∧
      Multipliers.ofMembers s.iterate.workspace.members =
        .ok ⟨answer.equalityMultipliers, answer.inequalityMultipliers⟩ := by
  unfold ofMachine at h
  obtain ⟨multipliers, hmultipliers, hanswer⟩ := Program.ok_of_bind h
  cases hanswer
  exact ⟨rfl, rfl, rfl, rfl, hmultipliers⟩

theorem Solution.iterations_ofMachine {P : Problem α n e m} {status : Status}
    {s : Machine α n slots m} {answer : Solution α n e m}
    (h : Solution.ofMachine P status s = .ok answer) : answer.iterations = s.iterations := by
  unfold ofMachine at h
  obtain ⟨multipliers, -, hanswer⟩ := Program.ok_of_bind h
  cases hanswer
  rfl

theorem Solution.residual_ofMachine {P : Problem α n e m} {status : Status}
    {s : Machine α n slots m} {answer : Solution α n e m}
    (h : Solution.ofMachine P status s = .ok answer) :
    answer.residual = P.residual answer.point := by
  unfold ofMachine at h
  obtain ⟨multipliers, -, hanswer⟩ := Program.ok_of_bind h
  cases hanswer
  rfl

namespace Program

variable {program : Program α} {limit : Int} {buffers : Option (Buffers α)}
  {answer : Solution α program.dimension program.equalityCount program.inequalityCount}
  {history : List (Admission α program.dimension slots program.inequalityCount)}
  {last : Machine α program.dimension slots program.inequalityCount}

/-- The course behind an answer, with the state that the answer was read off. -/
structure Concludes (program : Program α) (limit : Int) (buffers : Option (Buffers α))
    (answer : Solution α program.dimension program.equalityCount program.inequalityCount)
    (history : List (Admission α program.dimension slots program.inequalityCount))
    (last : Machine α program.dimension slots program.inequalityCount) : Prop where
  course : program.Course limit buffers history last
  read : ∃ final, program.step limit last = .stop answer.status final ∧
    Solution.ofMachine program.problem answer.status final = .ok answer

/-- An answer is the unconstrained minimum of a program without constraints, or comes from the end
of a course. -/
theorem unconstrained_or_concludes {guess : Option (Guess α)}
    (h : (program.solve guess limit buffers).outcome = .ok answer) :
    (∃ L, Dense.factor program.problem.quadratic = .ok L ∧ program.constraintCount = 0 ∧
      answer = Solution.unconstrained program.problem (program.problem.unconstrainedPoint L)
        (program.problem.unconstrainedValue (program.problem.unconstrainedPoint L))) ∨
    ∃ (slots : Nat)
      (history : List (Admission α program.dimension slots program.inequalityCount))
      (last : Machine α program.dimension slots program.inequalityCount),
      program.Concludes limit buffers answer history last := by
  rcases exists_course h with hnone | ⟨slots, history, last, final, status, hcourse, hstep, hanswer⟩
  · exact .inl hnone
  · obtain ⟨hstatus, -⟩ := Solution.ofMachine_ok hanswer
    subst hstatus
    exact .inr ⟨slots, history, last, hcourse, final, hstep, hanswer⟩

/-- Every answer of a program with constraints comes from the end of a course. -/
theorem concludes_of_solve {guess : Option (Guess α)} (hconstraints : program.constraintCount ≠ 0)
    (h : (program.solve guess limit buffers).outcome = .ok answer) :
    ∃ (slots : Nat)
      (history : List (Admission α program.dimension slots program.inequalityCount))
      (last : Machine α program.dimension slots program.inequalityCount),
      program.Concludes limit buffers answer history last := by
  rcases unconstrained_or_concludes h with ⟨L, -, hnone, -⟩ | hconcludes
  · exact absurd hnone hconstraints
  · exact hconcludes

/-- The residual of an answer is that of its point. -/
theorem residual_of_solve {guess : Option (Guess α)}
    (h : (program.solve guess limit buffers).outcome = .ok answer) :
    answer.residual = program.problem.residual answer.point := by
  rcases unconstrained_or_concludes h with ⟨L, -, -, rfl⟩ | ⟨slots, history, last, hconcludes⟩
  · rfl
  · obtain ⟨final, -, hanswer⟩ := hconcludes.read
    exact Solution.residual_ofMachine hanswer

theorem standing_of_course {s : Machine α program.dimension slots program.inequalityCount}
    (h : program.Course limit buffers history s) :
    s.Standing program.problem program.tolerance := by
  obtain ⟨L, workspace, -, -, hcourse⟩ := h
  exact Machine.standing_of_course (Machine.standing_start _ _ _ _ _) hcourse

/-- No other course is behind the same solve. -/
theorem Concludes.unique
    {answer' : Solution α program.dimension program.equalityCount program.inequalityCount}
    {history' : List (Admission α program.dimension slots program.inequalityCount)}
    {last' : Machine α program.dimension slots program.inequalityCount}
    (h : program.Concludes limit buffers answer history last)
    (h' : program.Concludes limit buffers answer' history' last') :
    history = history' ∧ last = last' ∧ answer = answer' := by
  obtain ⟨⟨L, workspace, hfactor, hroom, hcourse⟩, final, hstep, hanswer⟩ := h
  obtain ⟨⟨L', workspace', hfactor', hroom', hcourse'⟩, final', hstep', hanswer'⟩ := h'
  cases hfactor.symm.trans hfactor'
  cases hroom.symm.trans hroom'
  obtain ⟨rfl, rfl⟩ := hcourse.unique hcourse' (Machine.isLast_of_stop hstep)
    (Machine.isLast_of_stop hstep')
  -- the same state leads to the same end, and an answer is read off it in one way
  rw [hstep] at hstep'
  injection hstep' with hstatus hfinal
  rw [← hstatus, ← hfinal, hanswer] at hanswer'
  injection hanswer' with hsame
  exact ⟨rfl, rfl, hsame⟩

namespace Concludes

variable (h : program.Concludes limit buffers answer history last)
include h

theorem ends : ∃ final, Machine.Ends program.problem limit.toNat program.tolerance last
    answer.status final ∧ Solution.ofMachine program.problem answer.status final = .ok answer := by
  obtain ⟨final, hstep, hanswer⟩ := h.read
  exact ⟨final, Machine.ends_of_step hstep, hanswer⟩

theorem point_eq : answer.point = last.iterate.point := by
  obtain ⟨final, hends, hanswer⟩ := h.ends
  rw [(Solution.ofMachine_ok hanswer).2.1]
  exact congrArg Snapshot.point hends.snapshot

theorem value_eq : answer.value = last.iterate.value := by
  obtain ⟨final, hends, hanswer⟩ := h.ends
  rw [(Solution.ofMachine_ok hanswer).2.2.1]
  exact congrArg Snapshot.value hends.snapshot

theorem iterations_eq : answer.iterations = last.iterations := by
  obtain ⟨final, hends, hanswer⟩ := h.ends
  rw [Solution.iterations_ofMachine hanswer, hends.iterations]

theorem seating : last.iterate.workspace.count ≤ slots + 1 ∧
    Seating program.equalityCount last.iterate.workspace.count last.iterate.workspace.label
      last.iterate.isActive := by
  obtain ⟨final, hends, -⟩ := h.ends
  exact hends.seating (standing_of_course h.course)

/-- The multipliers of the answer are the dual values in the slots. -/
theorem ofMembers : Multipliers.ofMembers last.iterate.workspace.members =
    .ok ⟨answer.equalityMultipliers, answer.inequalityMultipliers⟩ := by
  obtain ⟨final, hends, hanswer⟩ := h.ends
  obtain ⟨-, -, -, -, hmultipliers⟩ := Solution.ofMachine_ok hanswer
  have hmembers (it : Iterate α program.dimension slots program.inequalityCount) :
      it.workspace.members =
        (it.snapshot.active.toList.zip it.snapshot.duals.toList).take it.snapshot.count := rfl
  rw [← hmultipliers, hmembers, hmembers, hends.snapshot]

/-- The active set lists the names behind those of the equalities. -/
theorem mem_activeSet {l : Label} : l ∈ answer.activeSet ↔
    ∃ k, program.equalityCount ≤ k ∧ k < last.iterate.workspace.count ∧
      last.iterate.workspace.label k = l := by
  obtain ⟨final, hends, hanswer⟩ := h.ends
  obtain ⟨-, -, -, hset, -⟩ := Solution.ofMachine_ok hanswer
  have hcount : final.iterate.workspace.count = last.iterate.workspace.count :=
    congrArg Snapshot.count hends.snapshot
  have hlabel (k : Nat) : final.iterate.workspace.label k = last.iterate.workspace.label k := by
    rw [← Iterate.label_snapshot, hends.snapshot, Iterate.label_snapshot]
  have hroom : final.iterate.workspace.count ≤ slots + 1 := by
    rw [hcount]
    exact h.seating.1
  rw [hset, Workspace.mem_labelsFrom hroom, hcount]
  simp only [hlabel]

/-- An inequality is in the active set exactly if its flag is up. -/
theorem mem_activeSet_iff (i : Fin program.inequalityCount) :
    .inequality i.val ∈ answer.activeSet ↔ last.iterate.isActive.get i = true := by
  rw [h.mem_activeSet, ← Workspace.mem_labelsFrom h.seating.1]
  exact Iterate.Seated.mem_labelsFrom_iff ⟨h.seating.1, h.seating.2⟩ i

end Concludes

end Program

end ActiveSet

import ActiveSet.Solver
/-
  The course of a solve

  `Machine.Course` holds of the states that a solve passes through, each with
  the constraints that were folded in up to there. An `Admission` records one
  of these: the constraint, and the states before and after the transition
  that folded it in. The own fold of an active constraint is its latest
  admission.

  A run ends where its course does (`exists_course_of_run`), and no other
  course of the same run ends elsewhere (`Course.unique`). `Program.Course` is
  the course of the run that `Program.solve` makes, and `exists_course` says
  that every answer of a program with constraints comes from its end.

  `Machine.Path` is for runs that are followed step by step. A property that is
  shown of every state on the way is one of every state of the run, if the path
  leads to its end (`Path.forall_course`).
-/

namespace ActiveSet

/-- A constraint that was folded in: its name, and the states around the transition. -/
structure Admission (α : Type) (n slots m : Nat) where
  label : Label
  before : Machine α n slots m
  after : Machine α n slots m

variable {α : Type} {n e m slots : Nat}

/-- The latest admission of a constraint: the fold that its column comes from. -/
def ownFold (history : List (Admission α n slots m)) (label : Label) :
    Option (Admission α n slots m) :=
  history.find? fun a => a.label = label

/-- The constraint with the given name. -/
def Problem.constraint? (P : Problem α n e m) : Label → Option (Constraint α n)
  | .equality i => if h : i < e then some (P.equalities.get ⟨i, h⟩) else none
  | .inequality i => if h : i < m then some (P.inequalities.get ⟨i, h⟩) else none

theorem Problem.constraint?_equality (P : Problem α n e m) (i : Fin e) :
    P.constraint? (.equality i) = some (P.equalities.get i) := dif_pos i.isLt

theorem Problem.constraint?_inequality (P : Problem α n e m) (i : Fin m) :
    P.constraint? (.inequality i) = some (P.inequalities.get i) := dif_pos i.isLt

/-- Whether a candidate is to be chosen or is being added. -/
def Phase.isIterating : Phase m → Bool
  | .select _ | .pass _ _ _ => true
  | .equality _ | .head => false

namespace Machine

/-- What a transition folds in. -/
def admitted (s s' : Machine α n slots m) : List (Admission α n slots m) :=
  match s.phase, s'.phase with
  | .equality i, .equality _ => [⟨.equality i, s, s'⟩]
  | .pass candidate _ _, .head => [⟨.inequality candidate, s, s'⟩]
  | _, _ => []

/-- The constraint that is being added, if one is. -/
def inHand (P : Problem α n e m) (s : Machine α n slots m) : Option (Constraint α n) :=
  match s.phase with
  | .equality i => if h : i < e then some (P.equalities.get ⟨i, h⟩) else none
  | .pass candidate _ _ => some (P.inequalities.get candidate)
  | _ => none

theorem inHand_of_equality {P : Problem α n e m} {s : Machine α n slots m} {i : Fin e}
    (h : s.phase = .equality i) : s.inHand P = some (P.equalities.get i) := by
  rw [inHand, h]
  exact dif_pos i.isLt

variable [Scalar α] {P : Problem α n e m} {limit : Nat} {tolerance : α}

/-- The states that a run passes through from a given one, each with what was folded in on the way
there, the latest first. -/
inductive Course (P : Problem α n e m) (limit : Nat) (tolerance : α)
    (start : Machine α n slots m) : List (Admission α n slots m) → Machine α n slots m → Prop
  | start : Course P limit tolerance start [] start
  | next {history : List (Admission α n slots m)} {s s' : Machine α n slots m} :
    Course P limit tolerance start history s → s.step P limit tolerance = .next s' →
      Course P limit tolerance start (admitted s s' ++ history) s'

namespace Course

theorem cons {s s' t : Machine α n slots m} {history : List (Admission α n slots m)}
    (hstep : s.step P limit tolerance = .next s') (h : Course P limit tolerance s' history t) :
    Course P limit tolerance s (history ++ admitted s s') t := by
  induction h with
  | start => simpa using Course.start.next hstep
  | next _ hnext ih =>
    rw [List.append_assoc]
    exact ih.next hnext

/-- A course that has not ended where it starts goes through the next state. -/
theorem eq_or_step {s t : Machine α n slots m} {history : List (Admission α n slots m)}
    (h : Course P limit tolerance s history t) :
    (history = [] ∧ t = s) ∨ ∃ s' later, s.step P limit tolerance = .next s' ∧
      history = later ++ admitted s s' ∧ Course P limit tolerance s' later t := by
  induction h with
  | start => exact .inl ⟨rfl, rfl⟩
  | @next history t t' _ hnext ih =>
    rcases ih with ⟨rfl, rfl⟩ | ⟨s', later, hstep, rfl, hlater⟩
    · exact .inr ⟨t', [], hnext, by simp, .start⟩
    · exact .inr ⟨s', admitted t t' ++ later, hstep, by rw [List.append_assoc],
        hlater.next hnext⟩

/-- What was folded in was folded in by a transition of the run. -/
theorem exists_transition {s t : Machine α n slots m} {history : List (Admission α n slots m)}
    (h : Course P limit tolerance s history t) {a : Admission α n slots m} (ha : a ∈ history) :
    ∃ earlier, Course P limit tolerance s earlier a.before ∧
      a.before.step P limit tolerance = .next a.after ∧ a ∈ admitted a.before a.after := by
  induction h with
  | start => exact absurd ha List.not_mem_nil
  | @next history t t' hcourse hstep ih =>
    rcases List.mem_append.mp ha with hnew | hold
    · have hends : a.before = t ∧ a.after = t' := by
        unfold admitted at hnew
        split at hnew
        · rw [List.mem_singleton.mp hnew]
          exact ⟨rfl, rfl⟩
        · rw [List.mem_singleton.mp hnew]
          exact ⟨rfl, rfl⟩
        · exact absurd hnew List.not_mem_nil
      rw [hends.1, hends.2]
      exact ⟨history, hcourse, hstep, hnew⟩
    · exact ih hold

end Course

theorem run_of_next {s s' : Machine α n slots m} (h : s.step P limit tolerance = .next s') :
    s.run P limit tolerance = s'.run P limit tolerance := by
  rw [run]
  split <;> simp_all

theorem run_of_stop {s s' : Machine α n slots m} {status : Status}
    (h : s.step P limit tolerance = .stop status s') :
    s.run P limit tolerance = (.ok status, s') := by
  rw [run]
  split <;> simp_all

theorem run_of_fail {s s' : Machine α n slots m} {fault : Fault}
    (h : s.step P limit tolerance = .fail fault s') :
    s.run P limit tolerance = (.error fault, s') := by
  rw [run]
  split <;> simp_all

/-- All states of a course lead to the same end. -/
theorem Course.run_eq {s t : Machine α n slots m} {history : List (Admission α n slots m)}
    (h : Course P limit tolerance s history t) :
    s.run P limit tolerance = t.run P limit tolerance := by
  induction h with
  | start => rfl
  | next _ hnext ih => rw [ih, run_of_next hnext]

/-- Every run ends at the end of a course. -/
theorem exists_course_of_run (P : Problem α n e m) (limit : Nat) (tolerance : α)
    (s : Machine α n slots m) :
    ∃ history last, Course P limit tolerance s history last ∧
      ((∃ status s', last.step P limit tolerance = .stop status s' ∧
          s.run P limit tolerance = (.ok status, s')) ∨
        ∃ fault s', last.step P limit tolerance = .fail fault s' ∧
          s.run P limit tolerance = (.error fault, s')) := by
  -- along the run itself, as far as it goes
  induction s using Machine.run.induct P limit tolerance with
  | case1 s s' hstep ih =>
    obtain ⟨history, last, hcourse, hend⟩ := ih
    refine ⟨_, last, hcourse.cons hstep, ?_⟩
    rw [run_of_next hstep]
    exact hend
  | case2 s status s' hstep =>
    exact ⟨[], s, .start, .inl ⟨status, s', hstep, run_of_stop hstep⟩⟩
  | case3 s fault s' hstep =>
    exact ⟨[], s, .start, .inr ⟨fault, s', hstep, run_of_fail hstep⟩⟩

/-- Whether no transition leads on from a state. -/
def IsLast (P : Problem α n e m) (limit : Nat) (tolerance : α) (s : Machine α n slots m) : Prop :=
  ∀ s', s.step P limit tolerance ≠ .next s'

theorem isLast_of_stop {s s' : Machine α n slots m} {status : Status}
    (h : s.step P limit tolerance = .stop status s') : s.IsLast P limit tolerance := by
  intro t ht
  rw [h] at ht
  cases ht

theorem isLast_of_fail {s s' : Machine α n slots m} {fault : Fault}
    (h : s.step P limit tolerance = .fail fault s') : s.IsLast P limit tolerance := by
  intro t ht
  rw [h] at ht
  cases ht

/-- From a state that nothing leads on from a course goes nowhere. -/
theorem Course.eq_of_isLast {s t : Machine α n slots m} {history : List (Admission α n slots m)}
    (h : Course P limit tolerance s history t) (hlast : s.IsLast P limit tolerance) :
    history = [] ∧ t = s := by
  rcases h.eq_or_step with hend | ⟨s', later, hstep, -, -⟩
  · exact hend
  · exact absurd hstep (hlast s')

/-- A path of a run from one state to another, with a property of all states but the last. -/
inductive Path (P : Problem α n e m) (limit : Nat) (tolerance : α)
    (Q : Machine α n slots m → Prop) : Machine α n slots m → Machine α n slots m → Prop
  | refl {s : Machine α n slots m} : Path P limit tolerance Q s s
  | next {s s' t : Machine α n slots m} : Q s → s.step P limit tolerance = .next s' →
      Path P limit tolerance Q s' t → Path P limit tolerance Q s t

namespace Path

variable {Q : Machine α n slots m → Prop} {s t u : Machine α n slots m}

theorem trans (h : Path P limit tolerance Q s t) (h' : Path P limit tolerance Q t u) :
    Path P limit tolerance Q s u := by
  induction h with
  | refl => exact h'
  | next hs hstep _ ih => exact .next hs hstep (ih h')

theorem exists_course (h : Path P limit tolerance Q s t) :
    ∃ history, Course P limit tolerance s history t := by
  induction h with
  | refl => exact ⟨[], .start⟩
  | next _ hstep _ ih =>
    obtain ⟨history, hcourse⟩ := ih
    exact ⟨_, hcourse.cons hstep⟩

/-- Where the run ends at the end of a path, it passes through the states of the path only. -/
theorem forall_course (h : Path P limit tolerance Q s t) (ht : Q t)
    (hlast : t.IsLast P limit tolerance) {history : List (Admission α n slots m)}
    (hu : Course P limit tolerance s history u) : Q u := by
  induction h generalizing history with
  | refl =>
    obtain ⟨-, rfl⟩ := hu.eq_of_isLast hlast
    exact ht
  | next hs hstep _ ih =>
    rcases hu.eq_or_step with ⟨-, rfl⟩ | ⟨s', later, hstep', -, hlater⟩
    · exact hs
    · cases hstep.symm.trans hstep'
      exact ih ht hlast hlater

end Path

/-- Two courses of one run that have both ended are the same. -/
theorem Course.unique {s t t' : Machine α n slots m}
    {history history' : List (Admission α n slots m)}
    (h : Course P limit tolerance s history t) (h' : Course P limit tolerance s history' t')
    (hlast : t.IsLast P limit tolerance) (hlast' : t'.IsLast P limit tolerance) :
    history = history' ∧ t = t' := by
  induction s using Machine.run.induct P limit tolerance generalizing history history' with
  | case1 s s' hstep ih =>
    rcases h.eq_or_step with ⟨-, rfl⟩ | ⟨u, later, hu, rfl, hlater⟩
    · exact absurd hstep (hlast _)
    rcases h'.eq_or_step with ⟨-, rfl⟩ | ⟨u', later', hu', rfl, hlater'⟩
    · exact absurd hstep (hlast' _)
    rw [hstep] at hu hu'
    cases hu
    cases hu'
    obtain ⟨rfl, rfl⟩ := ih hlater hlater'
    exact ⟨rfl, rfl⟩
  | case2 s status s' hstep =>
    obtain ⟨rfl, rfl⟩ := h.eq_of_isLast (isLast_of_stop hstep)
    obtain ⟨rfl, rfl⟩ := h'.eq_of_isLast (isLast_of_stop hstep)
    exact ⟨rfl, rfl⟩
  | case3 s fault s' hstep =>
    obtain ⟨rfl, rfl⟩ := h.eq_of_isLast (isLast_of_fail hstep)
    obtain ⟨rfl, rfl⟩ := h'.eq_of_isLast (isLast_of_fail hstep)
    exact ⟨rfl, rfl⟩

end Machine

namespace Program

variable [Scalar α]

/-- The workspace that a solve works in. -/
def room (program : Program α) (buffers : Option (Buffers α)) :
    Except Fault ((slots : Nat) × Workspace α program.dimension slots) :=
  match buffers with
  | none => .ok ⟨_, Workspace.blank program.dimension program.constraintCount⟩
  | some b => (b.fit program).map fun ws => ⟨b.slots, ws⟩

/-- The violation of the inequalities that a solve counts as none; zero for a quadratic term that
cannot be factored. -/
def tolerance (program : Program α) : α :=
  match Dense.factor program.problem.quadratic with
  | .ok L => program.problem.tolerance (Triangular.inverseLower L).trace
  | .error _ => 0

/-- The state from which a solve sets out in a workspace, given the factor of its quadratic
term. -/
def origin (program : Program α) (L : Mat α program.dimension program.dimension)
    (workspace : Workspace α program.dimension slots) :
    Machine α program.dimension slots program.inequalityCount :=
  program.problem.start (Triangular.inverseLower L) (program.problem.unconstrainedPoint L)
    workspace

/-- The course of the run that a solve of the program makes. -/
def Course (program : Program α) (limit : Int) (buffers : Option (Buffers α))
    (history : List (Admission α program.dimension slots program.inequalityCount))
    (s : Machine α program.dimension slots program.inequalityCount) : Prop :=
  ∃ L workspace, Dense.factor program.problem.quadratic = .ok L ∧
    program.room buffers = .ok ⟨slots, workspace⟩ ∧
    Machine.Course program.problem limit.toNat program.tolerance (program.origin L workspace)
      history s

/-- Without buffers a solve makes room for its constraints. -/
theorem Course.slots_eq {program : Program α} {limit : Int}
    {history : List (Admission α program.dimension slots program.inequalityCount)}
    {s : Machine α program.dimension slots program.inequalityCount}
    (h : program.Course limit none history s) : slots = program.constraintCount := by
  obtain ⟨L, workspace, -, hroom, -⟩ := h
  cases hroom
  rfl

/-- What was folded in was folded in at an earlier state of the solve. -/
theorem Course.exists_before {program : Program α} {limit : Int} {buffers : Option (Buffers α)}
    {history : List (Admission α program.dimension slots program.inequalityCount)}
    {s : Machine α program.dimension slots program.inequalityCount}
    (h : program.Course limit buffers history s)
    {a : Admission α program.dimension slots program.inequalityCount} (ha : a ∈ history) :
    ∃ earlier, program.Course limit buffers earlier a.before := by
  obtain ⟨L, workspace, hfactor, hroom, hcourse⟩ := h
  obtain ⟨earlier, hbefore, -⟩ := hcourse.exists_transition ha
  exact ⟨earlier, L, workspace, hfactor, hroom, hbefore⟩

/-- The transition from a state of a solve. -/
def step (program : Program α) (limit : Int)
    (s : Machine α program.dimension slots program.inequalityCount) :
    Transition α program.dimension slots program.inequalityCount :=
  s.step program.problem limit.toNat program.tolerance

theorem tolerance_eq {program : Program α} {L : Mat α program.dimension program.dimension}
    (h : Dense.factor program.problem.quadratic = .ok L) :
    program.tolerance = program.problem.tolerance (Triangular.inverseLower L).trace := by
  rw [tolerance, h]

/-- A computation that goes on after a check succeeds only if the check does. -/
theorem ok_of_bind {ε β γ : Type} {x : Except ε β} {f : β → Except ε γ} {c : γ}
    (h : (x >>= f) = .ok c) : ∃ b, x = .ok b ∧ f b = .ok c := by
  cases x with
  | error fault => cases h
  | ok b => exact ⟨b, rfl, h⟩

theorem factor_of_prepare {program : Program α} {guess : Option (Guess α)} {limit : Int}
    {L : Mat α program.dimension program.dimension} (h : program.prepare guess limit = .ok L) :
    Dense.factor program.problem.quadratic = .ok L := by
  unfold prepare at h
  by_cases hneg : limit < 0
  · rw [if_pos hneg] at h
    cases h
  · rw [if_neg hneg] at h
    cases guess with
    | none => exact h
    | some guess =>
      obtain ⟨t, -, h⟩ := ok_of_bind h
      by_cases hsize : t.size ≠ program.dimension
      · rw [if_pos hsize] at h
        cases h
      · rw [if_neg hsize] at h
        exact h

/-- A solve of a program with constraints is the one in the workspace it has room in. -/
theorem outcome_of_room {program : Program α} {guess : Option (Guess α)} {limit : Int}
    {buffers : Option (Buffers α)} {L : Mat α program.dimension program.dimension}
    {workspace : Workspace α program.dimension slots}
    (hprepare : program.prepare guess limit = .ok L) (hconstraints : program.constraintCount ≠ 0)
    (hroom : program.room buffers = .ok ⟨slots, workspace⟩) :
    (program.solve guess limit buffers).outcome =
      (program.problem.solveFrom L limit.toNat workspace).outcome := by
  unfold room at hroom
  simp only [solve, hprepare, if_neg hconstraints]
  cases buffers with
  | none =>
    cases hroom
    rfl
  | some b =>
    cases hfit : b.fit program with
    | error fault =>
      simp only [hfit] at hroom
      cases hroom
    | ok ws =>
      simp only [hfit] at hroom
      cases hroom
      simp only [hfit]

theorem exists_course_of_solveFrom {P : Problem α n e m} {L : Mat α n n} {limit : Nat}
    {workspace : Workspace α n slots} {answer : Solution α n e m}
    (h : (P.solveFrom L limit workspace).outcome = .ok answer) :
    ∃ (history : List (Admission α n slots m)) (last last' : Machine α n slots m)
      (status : Status),
      Machine.Course P limit (P.tolerance (Triangular.inverseLower L).trace)
          (P.start (Triangular.inverseLower L) (P.unconstrainedPoint L) workspace) history last ∧
        last.step P limit (P.tolerance (Triangular.inverseLower L).trace) = .stop status last' ∧
        Solution.ofMachine P status last' = .ok answer := by
  unfold Problem.solveFrom at h
  split at h
  · cases h
  · obtain ⟨history, last, hcourse, hend⟩ := Machine.exists_course_of_run P limit
      (P.tolerance (Triangular.inverseLower L).trace)
      (P.start (Triangular.inverseLower L) (P.unconstrainedPoint L) workspace)
    rcases hend with ⟨status, last', hstep, hrun⟩ | ⟨fault, last', -, hrun⟩
    · simp only [hrun] at h
      exact ⟨history, last, last', status, hcourse, hstep, h⟩
    · simp only [hrun] at h
      cases h

/-- An answer of a solve comes from the end of its course, unless there are no constraints. -/
theorem exists_course {program : Program α} {guess : Option (Guess α)} {limit : Int}
    {buffers : Option (Buffers α)}
    {answer : Solution α program.dimension program.equalityCount program.inequalityCount}
    (h : (program.solve guess limit buffers).outcome = .ok answer) :
    (∃ L, Dense.factor program.problem.quadratic = .ok L ∧ program.constraintCount = 0 ∧
      answer = Solution.unconstrained program.problem (program.problem.unconstrainedPoint L)
        (program.problem.unconstrainedValue (program.problem.unconstrainedPoint L))) ∨
    ∃ (slots : Nat)
      (history : List (Admission α program.dimension slots program.inequalityCount))
      (last last' : Machine α program.dimension slots program.inequalityCount) (status : Status),
      program.Course limit buffers history last ∧ program.step limit last = .stop status last' ∧
        Solution.ofMachine program.problem status last' = .ok answer := by
  unfold solve at h
  split at h
  · cases h
  · next L hL =>
    have hfactor := factor_of_prepare hL
    split at h
    · next hnone =>
      cases h
      exact .inl ⟨L, hfactor, hnone, rfl⟩
    · right
      split at h
      · obtain ⟨history, last, last', status, hcourse, hstep, hanswer⟩ :=
          exists_course_of_solveFrom h
        refine ⟨_, history, last, last', status, ⟨L, _, hfactor, rfl, ?_⟩, ?_, hanswer⟩
        · rw [tolerance_eq hfactor]
          exact hcourse
        · rw [step, tolerance_eq hfactor]
          exact hstep
      · next b =>
        split at h
        · cases h
        · next workspace hfit =>
          obtain ⟨history, last, last', status, hcourse, hstep, hanswer⟩ :=
            exists_course_of_solveFrom h
          refine ⟨_, history, last, last', status, ⟨L, workspace, hfactor, ?_, ?_⟩, ?_, hanswer⟩
          · rw [room, hfit]
            rfl
          · rw [tolerance_eq hfactor]
            exact hcourse
          · rw [step, tolerance_eq hfactor]
            exact hstep

end Program

end ActiveSet

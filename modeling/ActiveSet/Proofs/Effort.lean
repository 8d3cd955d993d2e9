import ActiveSet.Proofs.Heads
import ActiveSet.Proofs.Rollback
/-
  How much work a solve can take

  A solve is three loops inside one another: iterations, the candidates that
  an iteration takes up, and the passes for a candidate. None of them counts
  its turns, and each ends in any arithmetic, because a turn uses up something
  that no comparison gives back. An iteration uses up one of those allowed. A
  candidate that is undone stays excluded until the next iteration begins; the
  constraints that were dropped for it come back, so the active set is no
  measure here. A pass that settles nothing drops a constraint behind the
  equalities, and the next one has one constraint less to drop.

  `Tally` keeps the counts, `Machine.Spends` carries them along a run, and
  `Machine.Affordable` is the invariant: what was spent and what is left to
  spend in the phase at hand stay within the bounds (`affordable_of_spends`).
  Nothing is assumed of the state that a run sets out from but its phase and
  its counter, so the bounds hold in a workspace with any contents.
-/

namespace ActiveSet

variable {α : Type} [Scalar α] {n e m slots : Nat}

/-! ## Passes -/

namespace Iterate

variable {P : Problem α n e m} {candidate : Fin m} {it it' : Iterate α n slots m}

/-- A pass that drops a constraint drops one of those behind the equalities. -/
theorem Dropped.count_eq (h : it.Dropped P candidate it') :
    e < it.workspace.count ∧ it'.workspace.count + 1 = it.workspace.count := by
  cases h with
  | @dual c ws direction step label i p hc hws hdirection hplan hlabel hp hroom =>
    subst hws
    obtain ⟨hfirst, hlast, -⟩ := Workspace.position?_spec hp
    have hlt : p < it.workspace.count := hlast
    exact ⟨hfirst.trans_lt hlt, Nat.sub_add_cancel (Nat.one_le_of_lt hlt)⟩
  | @partway c ws direction step label i p point hc hws hdirection hplan hlabel hp hroom hpoint =>
    subst hws
    obtain ⟨hfirst, hlast, -⟩ := Workspace.position?_spec hp
    have hlt : p < it.workspace.count := hlast
    exact ⟨hfirst.trans_lt hlt, Nat.sub_add_cancel (Nat.one_le_of_lt hlt)⟩

theorem dropped_of_again (h : it.pass P candidate = .again it') : it.Dropped P candidate it' := by
  rcases pass_cases P candidate it with
    ⟨fault, it'', hp⟩ | ⟨it'', hp, -⟩ | ⟨it'', hp, hdropped⟩ | ⟨it'', hp, -⟩ | ⟨it'', hp, -⟩
  · cases h.symm.trans hp
  · cases h.symm.trans hp
  · cases h.symm.trans hp
    exact hdropped
  · cases h.symm.trans hp
  · cases h.symm.trans hp

/-- How many passes `passes` makes for a candidate. -/
def passCount (P : Problem α n e m) (candidate : Fin m) (it : Iterate α n slots m) : Nat :=
  match _h : it.pass P candidate with
  | .again it' => passCount P candidate it' + 1
  | .settled _ _ | .failed _ _ => 1
termination_by it.workspace.count
decreasing_by exact count_of_pass _h

/-- There is one pass at most for each active constraint behind the equalities, and one more, from
any state whatever. -/
theorem passCount_le (P : Problem α n e m) (candidate : Fin m) (it : Iterate α n slots m) :
    it.passCount P candidate ≤ it.workspace.count - e + 1 := by
  induction it using passCount.induct P candidate with
  | case1 it it' hpass ih =>
    rw [passCount]
    split
    · next it'' hpass' =>
      cases hpass.symm.trans hpass'
      obtain ⟨hbehind, hcount⟩ := (dropped_of_again hpass).count_eq
      omega
    · next hpass' => cases hpass.symm.trans hpass'
    · next hpass' => cases hpass.symm.trans hpass'
  | case2 it outcome it' hpass =>
    rw [passCount]
    split
    · next hpass' => cases hpass.symm.trans hpass'
    · omega
    · omega
  | case3 it fault it' hpass =>
    rw [passCount]
    split
    · next hpass' => cases hpass.symm.trans hpass'
    · omega
    · omega

end Iterate

/-! ## The counts of a run -/

/-- The work that a run has done. -/
structure Tally where
  transitions : Nat
  iterations : Nat
  /-- Candidates taken up in all. -/
  candidates : Nat
  /-- Those taken up since the latest iteration began. -/
  tried : Nat
  /-- Active constraints when the latest candidate was taken up. -/
  entry : Nat
  /-- Passes begun for that candidate. -/
  passes : Nat

namespace Tally

/-- Nothing was done yet. -/
def zero : Tally := ⟨0, 0, 0, 0, 0, 0⟩

/-- The work with one more transition. -/
def next (t : Tally) (s s' : Machine α n slots m) : Tally :=
  let t := { t with transitions := t.transitions + 1 }
  match s.phase, s'.phase with
  | .head, .select _ => { t with iterations := t.iterations + 1, tried := 0 }
  | .select _, .pass _ _ _ =>
    { t with
      candidates := t.candidates + 1
      tried := t.tried + 1
      entry := s'.iterate.workspace.count
      passes := 1 }
  | .pass _ _ _, .pass _ _ _ => { t with passes := t.passes + 1 }
  | _, _ => t

/-- The transitions that one candidate can take: it is taken up, and every pass is one. -/
def perCandidate (e slots : Nat) : Nat := slots - e + 2

/-- A candidate has a transition left after any pass that it is allowed. -/
theorem passes_lt {t : Tally} (hpasses : t.passes ≤ t.entry - e + 1) (hentry : t.entry ≤ slots) :
    t.passes < perCandidate e slots := by
  unfold perCandidate
  omega

/-- Whether a run with `e` equalities and `m` inequalities in so many slots is allowed the work,
when it may begin so many iterations. -/
structure Within (e m slots limit : Nat) (t : Tally) : Prop where
  iterations : t.iterations ≤ limit
  candidates : t.candidates ≤ limit * m
  tried : t.tried ≤ m
  passes : t.passes ≤ t.entry - e + 1
  transitions : t.transitions ≤ e + 1 + limit + limit * m * perCandidate e slots

end Tally

namespace Machine

variable {P : Problem α n e m} {limit : Nat} {tolerance : α} {start s s' : Machine α n slots m}
  {t : Tally}

/-- The states that a run passes through, each with the work done on the way there. -/
inductive Spends (P : Problem α n e m) (limit : Nat) (tolerance : α)
    (start : Machine α n slots m) : Tally → Machine α n slots m → Prop
  | start : Spends P limit tolerance start .zero start
  | next {t : Tally} {s s' : Machine α n slots m} :
    Spends P limit tolerance start t s → s.step P limit tolerance = .next s' →
      Spends P limit tolerance start (t.next s s') s'

theorem exists_spends {history : List (Admission α n slots m)}
    (h : Course P limit tolerance start history s) :
    ∃ t, Spends P limit tolerance start t s := by
  induction h with
  | start => exact ⟨.zero, .start⟩
  | next _ hstep ih =>
    obtain ⟨t, ht⟩ := ih
    exact ⟨_, ht.next hstep⟩

/-- Whether the work fits the phase: what was tried and what is not excluded, and the passes begun
and the constraints that they can still drop. -/
def Fits (e : Nat) (t : Tally) (s : Machine α n slots m) : Prop :=
  match s.phase with
  | .equality i => i ≤ e ∧ t.transitions ≤ i ∧ t.iterations = 0 ∧ t.candidates = 0
  | .head =>
    t.candidates ≤ t.iterations * m ∧
      t.transitions ≤ e + 1 + t.iterations + t.candidates * Tally.perCandidate e slots
  | .select excluded =>
    t.tried + unexcluded excluded ≤ m ∧ t.candidates + m ≤ t.iterations * m + t.tried ∧
      t.transitions ≤ e + 1 + t.iterations + t.candidates * Tally.perCandidate e slots
  | .pass _ excluded _ =>
    t.tried + unexcluded excluded ≤ m + 1 ∧ t.candidates + m ≤ t.iterations * m + t.tried ∧
      t.passes + (s.iterate.workspace.count - e) ≤ t.entry - e + 1 ∧ t.entry ≤ slots ∧
      t.transitions + (Tally.perCandidate e slots - t.passes) ≤
        e + 1 + t.iterations + t.candidates * Tally.perCandidate e slots

/-- Whether a state can be afforded with the work done. -/
structure Affordable (e limit : Nat) (t : Tally) (s : Machine α n slots m) : Prop where
  iterations_eq : t.iterations = s.iterations
  iterations_le : t.iterations ≤ limit
  tried : t.tried ≤ m
  passes : t.passes ≤ t.entry - e + 1
  fits : s.Fits e t

omit [Scalar α] in
theorem affordable_start (hphase : start.phase = .equality 0) (hnone : start.iterations = 0) :
    start.Affordable e limit .zero where
  iterations_eq := hnone.symm
  iterations_le := Nat.zero_le _
  tried := Nat.zero_le _
  passes := Nat.zero_le _
  fits := by
    rw [Fits, hphase]
    exact ⟨Nat.zero_le _, Nat.le_refl _, rfl, rfl⟩

/-- Every transition can be paid for. -/
theorem affordable_of_leads (h : s.Affordable e limit t) (hleads : Leads P limit tolerance s s') :
    s'.Affordable e limit (t.next s s') := by
  obtain ⟨hcounted, hlimit, htried, hpasses, hfits⟩ := h
  cases hleads with
  | @met it it' i iterations evaluations hmet =>
    obtain ⟨-, htransitions, hnone, hcandidates⟩ := hfits
    exact ⟨hcounted, hlimit, htried, hpasses, i.isLt, Nat.succ_le_succ htransitions, hnone,
      hcandidates⟩
  | @allMet it i iterations evaluations hi =>
    obtain ⟨hle, htransitions, hnone, hcandidates⟩ := hfits
    refine ⟨hcounted, hlimit, htried, hpasses, ?_, ?_⟩
    · show t.candidates ≤ t.iterations * m
      omega
    · show t.transitions + 1 ≤ e + 1 + t.iterations + t.candidates * Tally.perCandidate e slots
      omega
  | @begun it it' iterations evaluations hit hviolated hallowed =>
    obtain ⟨hcandidates, htransitions⟩ := hfits
    have hrise : (t.iterations + 1) * m = t.iterations * m + m := Nat.succ_mul _ _
    refine ⟨congrArg (· + 1) hcounted, ?_, Nat.zero_le _, hpasses, ?_, ?_, ?_⟩
    · show t.iterations + 1 ≤ limit
      exact hcounted.symm ▸ hallowed
    · show 0 + unexcluded (Vector.replicate m false) ≤ m
      rw [Nat.zero_add]
      exact Vector.countP_le_size
    · show t.candidates + m ≤ (t.iterations + 1) * m + 0
      omega
    · show t.transitions + 1 ≤
        e + 1 + (t.iterations + 1) + t.candidates * Tally.perCandidate e slots
      omega
  | @chosen it ws excluded candidate events iterations evaluations hcandidate hplace fresh =>
    obtain ⟨hleft, hcandidates, htransitions⟩ := hfits
    have hroom : it.workspace.count ≤ slots := Workspace.count_place_le hplace
    have hcount : ws.count = it.workspace.count := by
      obtain ⟨_, rfl⟩ := Workspace.place_ok hplace
      rfl
    -- the candidate is not excluded, so there was one left to try
    have hfresh := unexcluded_set fresh
    have hrise : (t.candidates + 1) * Tally.perCandidate e slots =
        t.candidates * Tally.perCandidate e slots + Tally.perCandidate e slots := Nat.succ_mul _ _
    refine ⟨hcounted, hlimit, ?_, ?_, ?_, ?_, ?_, ?_, ?_⟩
    · show t.tried + 1 ≤ m
      omega
    · show 1 ≤ ws.count - e + 1
      omega
    · show t.tried + 1 + unexcluded excluded ≤ m + 1
      omega
    · show t.candidates + 1 + m ≤ t.iterations * m + (t.tried + 1)
      omega
    · show 1 + (ws.count - e) ≤ ws.count - e + 1
      omega
    · show ws.count ≤ slots
      omega
    · show t.transitions + 1 + (Tally.perCandidate e slots - 1) ≤
        e + 1 + t.iterations + (t.candidates + 1) * Tally.perCandidate e slots
      have hpos : 1 ≤ Tally.perCandidate e slots := Nat.le_add_left _ _
      omega
  | @dropped it it' excluded candidate fresh iterations evaluations hdropped =>
    obtain ⟨hleft, hcandidates, hdroppable, hentry, htransitions⟩ := hfits
    have hdroppable : t.passes + (it.workspace.count - e) ≤ t.entry - e + 1 := hdroppable
    obtain ⟨hbehind, hcount⟩ := hdropped.count_eq
    refine ⟨hcounted, hlimit, htried, ?_, hleft, hcandidates, ?_, hentry, ?_⟩
    · show t.passes + 1 ≤ t.entry - e + 1
      omega
    · show t.passes + 1 + (it'.workspace.count - e) ≤ t.entry - e + 1
      omega
    · show t.transitions + 1 + (Tally.perCandidate e slots - (t.passes + 1)) ≤
        e + 1 + t.iterations + t.candidates * Tally.perCandidate e slots
      have hspare := Tally.passes_lt hpasses hentry
      omega
  | @added it it' excluded candidate fresh iterations evaluations hreached =>
    obtain ⟨hleft, hcandidates, hdroppable, hentry, htransitions⟩ := hfits
    refine ⟨hcounted, hlimit, htried, hpasses, ?_, ?_⟩
    · show t.candidates ≤ t.iterations * m
      omega
    · show t.transitions + 1 ≤ e + 1 + t.iterations + t.candidates * Tally.perCandidate e slots
      have hspare := Tally.passes_lt hpasses hentry
      omega
  | @undone it it' excluded isActive candidate fresh iterations evaluations events hreached
      hflags =>
    obtain ⟨hleft, hcandidates, hdroppable, hentry, htransitions⟩ := hfits
    -- the candidate is excluded from here on
    have hfresh := unexcluded_set fresh
    refine ⟨hcounted, hlimit, htried, hpasses, ?_, hcandidates, ?_⟩
    · show t.tried + unexcluded (Vec.set excluded candidate true) ≤ m
      omega
    · show t.transitions + 1 ≤ e + 1 + t.iterations + t.candidates * Tally.perCandidate e slots
      have hspare := Tally.passes_lt hpasses hentry
      omega

theorem affordable_of_spends (hphase : start.phase = .equality 0) (hnone : start.iterations = 0)
    (h : Spends P limit tolerance start t s) : s.Affordable e limit t := by
  induction h with
  | start => exact affordable_start hphase hnone
  | next _ hstep ih => exact affordable_of_leads ih (leads_of_step hstep)

omit [Scalar α] in
theorem Affordable.candidates_le (h : s.Affordable e limit t) :
    t.candidates ≤ t.iterations * m := by
  have hfits := h.fits
  have htried := h.tried
  unfold Fits at hfits
  split at hfits <;> omega

omit [Scalar α] in
theorem Affordable.transitions_le (h : s.Affordable e limit t) :
    t.transitions ≤ e + 1 + t.iterations + t.candidates * Tally.perCandidate e slots := by
  have hfits := h.fits
  unfold Fits at hfits
  split at hfits <;> omega

omit [Scalar α] in
/-- What can be afforded is allowed. -/
theorem Affordable.within (h : s.Affordable e limit t) : t.Within e m slots limit := by
  have hcandidates : t.candidates ≤ limit * m :=
    h.candidates_le.trans (Nat.mul_le_mul_right m h.iterations_le)
  have hshare : t.candidates * Tally.perCandidate e slots ≤
      limit * m * Tally.perCandidate e slots := Nat.mul_le_mul_right _ hcandidates
  refine ⟨h.iterations_le, hcandidates, h.tried, h.passes, ?_⟩
  calc t.transitions
      ≤ e + 1 + t.iterations + t.candidates * Tally.perCandidate e slots := h.transitions_le
    _ ≤ e + 1 + limit + limit * m * Tally.perCandidate e slots :=
      Nat.add_le_add (Nat.add_le_add_left h.iterations_le _) hshare

end Machine

namespace Program

variable {program : Program α} {limit : Int} {buffers : Option (Buffers α)} {t : Tally}
  {s : Machine α program.dimension slots program.inequalityCount}

/-- The states that a solve of the program passes through, each with the work done on the way. -/
def Spends (program : Program α) (limit : Int) (buffers : Option (Buffers α)) (t : Tally)
    (s : Machine α program.dimension slots program.inequalityCount) : Prop :=
  ∃ L workspace, Dense.factor program.problem.quadratic = .ok L ∧
    program.room buffers = .ok ⟨slots, workspace⟩ ∧
    Machine.Spends program.problem limit.toNat program.tolerance (program.origin L workspace) t s

theorem exists_spends
    {history : List (Admission α program.dimension slots program.inequalityCount)}
    (h : program.Course limit buffers history s) : ∃ t, program.Spends limit buffers t s := by
  obtain ⟨L, workspace, hfactor, hroom, hcourse⟩ := h
  obtain ⟨t, ht⟩ := Machine.exists_spends hcourse
  exact ⟨t, L, workspace, hfactor, hroom, ht⟩

theorem Spends.affordable (h : program.Spends limit buffers t s) :
    s.Affordable program.equalityCount limit.toNat t := by
  obtain ⟨L, workspace, -, -, hspends⟩ := h
  exact Machine.affordable_of_spends rfl rfl hspends

/-- Every solve ends, whatever the arithmetic and the contents of its workspace. The run comes to a
last state, and up to there it has begun no more iterations than allowed, has taken up no more
candidates in an iteration than there are inequalities, and has made no more passes for a candidate
than there were active inequalities to drop, and one; so the number of its transitions is bounded.
The same bound on passes holds for a candidate in any state of the workspace. -/
theorem effort_of_solve (program : Program α) (limit : Nat) (buffers : Option (Buffers α)) :
    (∀ (slots : Nat) (L : Mat α program.dimension program.dimension)
      (workspace : Workspace α program.dimension slots),
      Dense.factor program.problem.quadratic = .ok L →
        program.room buffers = .ok ⟨slots, workspace⟩ →
          ∃ (t : Tally) (last : Machine α program.dimension slots program.inequalityCount),
            program.Spends limit buffers t last ∧
              last.IsLast program.problem limit program.tolerance) ∧
    (∀ (slots : Nat) (t : Tally)
      (s : Machine α program.dimension slots program.inequalityCount),
      program.Spends limit buffers t s →
        t.Within program.equalityCount program.inequalityCount slots limit ∧
          t.iterations = s.iterations) ∧
    (∀ (guess : Option (Guess α))
      (answer : Solution α program.dimension program.equalityCount program.inequalityCount),
      program.constraintCount ≠ 0 → (program.solve guess limit buffers).outcome = .ok answer →
        answer.iterations ≤ limit) ∧
    ∀ (slots : Nat) (candidate : Fin program.inequalityCount)
      (it : Iterate α program.dimension slots program.inequalityCount),
      it.passCount program.problem candidate ≤
        it.workspace.count - program.equalityCount + 1 := by
  refine ⟨?_, ?_, ?_, fun slots candidate it => Iterate.passCount_le _ candidate it⟩
  · intro slots L workspace hfactor hroom
    obtain ⟨history, last, hcourse, hend⟩ := Machine.exists_course_of_run program.problem limit
      program.tolerance (program.origin L workspace)
    obtain ⟨t, ht⟩ := Machine.exists_spends hcourse
    refine ⟨t, last, ⟨L, workspace, hfactor, hroom, ht⟩, fun s' hnext => ?_⟩
    rcases hend with ⟨status, final, hstop, -⟩ | ⟨fault, final, hfail, -⟩
    · cases hstop.symm.trans hnext
    · cases hfail.symm.trans hnext
  · intro slots t s hspends
    exact ⟨hspends.affordable.within, hspends.affordable.iterations_eq⟩
  · intro guess answer hconstraints hanswer
    obtain ⟨slots, history, last, hconcludes⟩ := concludes_of_solve hconstraints hanswer
    obtain ⟨t, ht⟩ := exists_spends hconcludes.course
    rw [hconcludes.iterations_eq, ← ht.affordable.iterations_eq]
    exact ht.affordable.iterations_le

/-- At a wall with a short normal the one candidate takes one pass, and is undone. -/
theorem effort_of_solve_wall :
    let program := wall (10 ^ 20) (1 / 10 ^ 40) 1
    ∃ (t : Tally) (s : Machine ℝ 1 1 1) (excluded : Vector Bool 1),
      program.Spends 100 none t s ∧ s.phase = .select excluded ∧
      excluded.get (0 : Fin 1) = true ∧ t.tried = 1 ∧ t.passes = 1 ∧ t.Within 0 1 1 100 ∧
      ∃ answer : Solution ℝ 1 0 1, (program.solve none 100 none).outcome = .ok answer ∧
        answer.iterations ≤ 100 := by
  intro program
  have hp : (0 : ℝ) < 10 ^ 20 := by positivity
  obtain ⟨hfar, hmove, hshort⟩ := Scalar.short_normal
  obtain ⟨s₁, s₂, s₃, final, excluded, fresh, hbegun, hchosen, hundone, hstop, hphase₁, hphase₂,
    hphase₃⟩ := exists_undone hp hfar hmove hshort (show (1 : Int) ≤ 100 by decide)
  have hhead := course_wallHead (ν := 1 / 10 ^ 40) (β := 1) hp 100
  obtain ⟨t, L, workspace, hfactor, hroom, hspends⟩ := exists_spends hhead
  have hspent : program.Spends 100 none
      (((t.next (Problem.wallHead (10 ^ 20) (1 / 10 ^ 40) 1) s₁).next s₁ s₂).next s₂ s₃) s₃ :=
    ⟨L, workspace, hfactor, hroom, ((hspends.next hbegun).next hchosen).next hundone⟩
  obtain ⟨-, hwithin, hiterations, -⟩ := effort_of_solve program 100 none
  obtain ⟨answer, hanswer, -⟩ := exists_answer_wall hp (by decide)
    (((hhead.next hbegun).next hchosen).next hundone) hstop
  have hphase₀ : (Problem.wallHead (10 ^ 20) (1 / 10 ^ 40) 1).phase = .head := rfl
  refine ⟨_, s₃, _, hspent, hphase₃, ?_, ?_, ?_, (hwithin _ _ _ hspent).1, answer, hanswer,
    hiterations none answer (show 0 + 1 ≠ 0 by decide) hanswer⟩
  · simp [Vec.get_set]
  · simp only [Tally.next, hphase₀, hphase₁, hphase₂, hphase₃]
  · simp only [Tally.next, hphase₁, hphase₂, hphase₃]

end Program

end ActiveSet

import ActiveSet.Proofs.Factorization
import ActiveSet.Proofs.Advance
import ActiveSet.Proofs.Aim
import ActiveSet.Proofs.Upkeep
import ActiveSet.Problem.Build
/-
  The factorization in every state of a solve

  `Columns` ties the factorization to the constraints in the slots: the normal
  that belongs to a column is that of the constraint named in its slot, and
  the residue of the column is what the rotations skipped in that constraint's
  own fold left. It is kept by every transition, so the error of a column is
  fixed when its constraint is folded in: however many constraints come and go
  afterwards, and whatever is undone, it does not grow.

  A solve in which one does come and go is followed to its end: two walls form
  a corner, and the one that is folded in first is taken out again on the way
  to the other (`solve_corner`).
-/

open Matrix

namespace ActiveSet

variable {n e m slots : Nat}

/-- The normal of the constraint with the given name; zero when there is none. -/
def Problem.normal (P : Problem ℝ n e m) (l : Label) : Fin n → ℝ :=
  match P.constraint? l with
  | some c => c.normal.get
  | none => 0

/-- The pairs that the rotations of a fold are made for, were the constraint in hand folded in. -/
def Machine.foldPairs {α : Type} [Scalar α] (P : Problem α n e m) (s : Machine α n slots m) :
    List (α × α) :=
  match s.inHand P with
  | some c => (s.iterate.workspace.aim c.normal).foldPairs
  | none => []

/-- What the skipped rotations of a constraint's own fold left. -/
noncomputable def residue (P : Problem ℝ n e m) (history : List (Admission ℝ n slots m))
    (l : Label) : ℝ :=
  match ownFold history l with
  | some a => uncleared (a.before.foldPairs P)
  | none => 0

theorem Machine.length_foldPairs_le {α : Type} [Scalar α] (P : Problem α n e m)
    (s : Machine α n slots m) : (s.foldPairs P).length ≤ n := by
  unfold foldPairs
  split
  · exact Workspace.length_foldPairs_le _
  · exact Nat.zero_le _

theorem Machine.foldPairs_of_inHand {α : Type} [Scalar α] {P : Problem α n e m}
    {s : Machine α n slots m} {c : Constraint α n} (h : s.inHand P = some c) :
    s.foldPairs P = (s.iterate.workspace.aim c.normal).foldPairs := by
  rw [foldPairs, h]

/-- In one variable no fold clears anything. -/
theorem Machine.foldPairs_of_one {α : Type} [Scalar α] (P : Problem α 1 e m)
    (s : Machine α 1 slots m) : s.foldPairs P = [] := by
  unfold foldPairs
  split
  · exact Workspace.foldPairs_of_last (Nat.le_add_left 1 _)
  · rfl

theorem Problem.normal_of_constraint? {P : Problem ℝ n e m} {l : Label} {c : Constraint ℝ n}
    (h : P.constraint? l = some c) : P.normal l = c.normal.get := by
  rw [Problem.normal, h]

theorem residue_of_ownFold {P : Problem ℝ n e m} {history : List (Admission ℝ n slots m)}
    {l : Label} {a : Admission ℝ n slots m} (h : ownFold history l = some a) :
    residue P history l = uncleared (a.before.foldPairs P) := by
  rw [residue, h]

theorem residue_cons_of_ne {P : Problem ℝ n e m} {history : List (Admission ℝ n slots m)}
    {l : Label} {a : Admission ℝ n slots m} (h : l ≠ a.label) :
    residue P (a :: history) l = residue P history l := by
  rw [residue, ownFold_cons_of_ne h]
  rfl

/-- The factorization of a snapshot, column by column: normals by the names in the slots, residues
by the folds in the history. -/
structure Columns (P : Problem ℝ n e m) (history : List (Admission ℝ n slots m))
    (t : Snapshot ℝ n slots) : Prop where
  factored : Factored P.quadratic t.factors (fun k => P.normal (t.label k))
    fun k => residue P history (t.label k)
  folded : ∀ k < t.count, ∃ a, ownFold history (t.label k) = some a

namespace Columns

variable {P : Problem ℝ n e m} {history : List (Admission ℝ n slots m)} {t t' : Snapshot ℝ n slots}

/-- Folding a constraint in. Its own rotations decide the residue of the new column; the other
columns keep theirs. -/
theorem fold (h : Columns P history t) {ws ws' : Workspace ℝ n slots}
    {a : Admission ℝ n slots m} {c : Constraint ℝ n} (hc : P.constraint? a.label = some c)
    (hfold : ws.fold = (ws', true)) (hfactors : ws.factors = t.factors)
    (himage : ws.image.get = ws.basis.toMatrixᵀ *ᵥ c.normal.get)
    (hpairs : a.before.foldPairs P = ws.foldPairs) (hfactors' : t'.factors = ws'.factors)
    (hold : ∀ k < t.count, t'.label k = t.label k ∧ t.label k ≠ a.label)
    (hnew : t'.label t.count = a.label) : Columns P (a :: history) t' := by
  have hcount : ws.count = t.count := congrArg Factors.count hfactors
  have hcount' : t'.count = t.count + 1 := by
    rw [← hcount, ← Workspace.count_fold hfold]
    exact congrArg Factors.count hfactors'
  have hfactored := h.factored
  rw [← hfactors] at hfactored
  have hgrown := hfactored.fold himage hfold
  rw [← hfactors', hcount] at hgrown
  refine ⟨hgrown.congr ?_ ?_, ?_⟩
  · intro k hk
    change k < t'.count at hk
    rcases Nat.lt_or_ge k t.count with hlt | hge
    · rw [Function.update_of_ne (Nat.ne_of_lt hlt), (hold k hlt).1]
    · obtain rfl : k = t.count := by omega
      rw [Function.update_self, hnew, Problem.normal_of_constraint? hc]
  · intro k hk
    change k < t'.count at hk
    rcases Nat.lt_or_ge k t.count with hlt | hge
    · rw [Function.update_of_ne (Nat.ne_of_lt hlt), (hold k hlt).1,
        residue_cons_of_ne (hold k hlt).2]
    -- the new column's own fold is the one that has just been recorded
    · obtain rfl : k = t.count := by omega
      rw [Function.update_self, hnew, residue_of_ownFold (ownFold_cons_self rfl), hpairs]
  · intro k hk
    rcases Nat.lt_or_ge k t.count with hlt | hge
    · rw [(hold k hlt).1, ownFold_cons_of_ne (hold k hlt).2]
      exact h.folded k hlt
    · obtain rfl : k = t.count := by omega
      exact ⟨a, by rw [hnew, ownFold_cons_self rfl]⟩

/-- What a column misses of its normal was decided by the constraint's own fold. -/
theorem missed (h : Columns P history t) {k : Fin n} (hk : k.val < t.count) {c : Constraint ℝ n}
    (hc : P.constraint? (t.label k) = some c) :
    ∃ a, ownFold history (t.label k) = some a ∧
      t.factors.miss c.normal.get k ⬝ᵥ t.factors.miss c.normal.get k =
        uncleared (a.before.foldPairs P) := by
  obtain ⟨a, ha⟩ := h.folded k hk
  refine ⟨a, ha, ?_⟩
  rw [← residue_of_ownFold ha, ← Problem.normal_of_constraint? hc]
  exact h.factored.missed k hk

/-- Taking a constraint out. -/
theorem eraseAt {it it' : Iterate ℝ n slots m} (h : Columns P history it.snapshot) {p : Nat}
    {ws : Workspace ℝ n slots} (hit : it'.workspace = ws.eraseAt p)
    (hfactors : ws.factors = it.workspace.factors)
    (hlabel : ∀ k, ws.label k = it.workspace.label k) (hroom : ws.count ≤ slots)
    (hp : p < ws.count) : Columns P history it'.snapshot := by
  have hcount : ws.count = it.workspace.count := congrArg Factors.count hfactors
  have hfactored : Factored P.quadratic ws.factors (fun k => P.normal (ws.label k))
      fun k => residue P history (ws.label k) := by
    rw [hfactors]
    apply h.factored.congr
    · intro k _
      rw [hlabel]; rfl
    · intro k _
      rw [hlabel]; rfl
  have hmoved : ∀ k < ws.count, it'.snapshot.label k = ws.label (skip p k) := fun k hk => by
    rw [Iterate.label_snapshot, hit]
    exact Workspace.label_eraseAt hroom hk
  have hcount' : it'.workspace.count = ws.count - 1 := by rw [hit]; rfl
  have herased := hfactored.eraseAt hp
  have hfactors' : it'.snapshot.factors = (ws.eraseAt p).factors := by
    rw [← hit]
    rfl
  rw [← hfactors'] at herased
  have hlt {k : Nat} (hk : k < it'.snapshot.count) : k < ws.count := by
    change k < it'.workspace.count at hk
    omega
  refine ⟨herased.congr ?_ ?_, ?_⟩
  · intro k hk
    rw [hmoved k (hlt hk)]
    rfl
  · intro k hk
    rw [hmoved k (hlt hk)]
    rfl
  · intro k hk
    have hskip : skip p k < it.snapshot.count := by
      change k < it'.workspace.count at hk
      show skip p k < it.workspace.count
      have := skip_le p k
      omega
    rw [hmoved k (hlt hk), hlabel]
    exact h.folded _ hskip

end Columns

/-! ## Along the course of a solve -/

namespace Machine

variable {P : Problem ℝ n e m} {limit : Nat} {tolerance : ℝ} {start : Machine ℝ n slots m}

theorem columns_of_met {history : List (Admission ℝ n slots m)} {s s' : Machine ℝ n slots m}
    {i : Fin e} (hstanding : Standing P tolerance s) (hphase : s.phase = .equality i)
    (h : Columns P history s.iterate.snapshot) (hmet : s.iterate.Met P i s'.iterate) :
    Columns P (⟨.equality i, s, s'⟩ :: history) s'.iterate.snapshot := by
  rw [Standing, hphase] at hstanding
  obtain ⟨-, hcount, hseated⟩ := hstanding
  have hseating := hseated.seating
  have hinHand : s.inHand P = some (P.equalities.get i) := inHand_of_equality hphase
  obtain ⟨-, -, -, hlabel⟩ := hmet.names
  generalize hit : s'.iterate = it' at hmet hlabel
  cases hmet with
  | @intro c ws ws₁ ws₂ direction step hc hws hdirection hstep hplace hfold =>
    subst hws
    obtain ⟨hroom, hws₁⟩ := Workspace.place_ok hplace
    refine h.fold (show P.constraint? (.equality i) = some c by rw [hc, P.constraint?_equality])
      hfold (show ws₁.factors = _ by rw [hws₁]; rfl) ?_ ?_ rfl (fun k hk => ?_) ?_
    · have himage := s.iterate.workspace.get_image_aim c.normal
      rw [hws₁]
      exact himage
    · show s.foldPairs P = _
      rw [foldPairs, hinHand, ← hc, hws₁]
      rfl
    · change k < s.iterate.workspace.count at hk
      exact ⟨(hlabel k).trans (if_neg (Nat.ne_of_lt hk)),
        hseating.ne_equality (le_refl _) hk⟩
    · exact (hlabel _).trans (if_pos rfl)

theorem columns_of_added {history : List (Admission ℝ n slots m)} {s s' : Machine ℝ n slots m}
    {it' : Iterate ℝ n slots m} {candidate : Fin m} {isActive : Vector Bool m}
    (hinHand : s.inHand P = some (P.inequalities.get candidate))
    (hadds : s.iterate.Adds P tolerance candidate) (h : Columns P history s.iterate.snapshot)
    (hreached : s.iterate.Reached P candidate true it') (hit : s'.iterate = { it' with isActive }) :
    Columns P (⟨.inequality candidate, s, s'⟩ :: history) s'.iterate.snapshot := by
  have hlabels := hreached.keeps.1
  cases hreached with
  | @intro c ws ws₁ direction step events hc hws hdirection hplan hfold =>
    subst hws
    have hpairs : s.foldPairs P = (s.iterate.workspace.aim c.normal).foldPairs :=
      foldPairs_of_inHand (hc ▸ hinHand)
    refine h.fold (show P.constraint? (.inequality candidate) = some c by
        rw [hc, P.constraint?_inequality]) hfold rfl
      (s.iterate.workspace.get_image_aim c.normal) hpairs (by rw [hit]; rfl)
      (fun k hk => ⟨?_, ?_⟩) ?_
    · rw [Iterate.label_snapshot, hit]
      exact hlabels k
    · exact hadds.seating.ne_of_inactive hadds.inactive hk
    · rw [Iterate.label_snapshot, hit]
      exact (hlabels _).trans hadds.label_eq

theorem columns_of_dropped {history : List (Admission ℝ n slots m)} {it it' : Iterate ℝ n slots m}
    {candidate : Fin m} (hadds : it.Adds P tolerance candidate)
    (h : Columns P history it.snapshot) (hdropped : it.Dropped P candidate it') :
    Columns P history it'.snapshot := by
  cases hdropped with
  | dual hc hws hdirection hplan hlabel hp hroom =>
    obtain ⟨-, hpc, -, -⟩ := hadds.dropped_slot hws (.inl hplan) hlabel hp
    subst hws
    exact h.eraseAt rfl rfl (fun _ => rfl) hroom hpc
  | partway hc hws hdirection hplan hlabel hp hroom hpoint =>
    obtain ⟨-, hpc, -, -⟩ := hadds.dropped_slot hws (.inr hplan) hlabel hp
    subst hws
    exact h.eraseAt rfl rfl (fun _ => rfl) hroom hpc

/-- The factorization is kept from a state in which nothing is active. -/
theorem upkeep_columns (hcolumns : Columns P [] start.iterate.snapshot) :
    Upkeep P limit tolerance start (Columns P)
      fun history _ it => Columns P history it.snapshot where
  origin := hcolumns
  met _ hstanding hphase h hmet := columns_of_met hstanding hphase h hmet
  chosen {history s excluded candidate ws events} _ hrests h _ hplace := by
    obtain ⟨hroom, hws⟩ := Workspace.place_ok hplace
    have hlabel : ∀ k < s.iterate.workspace.count, ws.label k = s.iterate.workspace.label k :=
      fun k hk => by rw [Workspace.label_place hplace, if_neg (Nat.ne_of_lt hk)]
    have hfactors : ws.factors = s.iterate.workspace.factors := by rw [hws]; rfl
    constructor
    · show Factored P.quadratic ws.factors (fun k => P.normal (ws.label k))
        fun k => residue P history (ws.label k)
      rw [hfactors]
      apply h.factored.congr
      · intro k hk
        rw [hlabel k hk]; rfl
      · intro k hk
        rw [hlabel k hk]; rfl
    · intro k hk
      change k < ws.count at hk
      have hcount : ws.count = s.iterate.workspace.count := congrArg Factors.count hfactors
      show ∃ a, ownFold history (ws.label k) = some a
      rw [hlabel k (by omega)]
      exact h.folded k (show k < s.iterate.workspace.count by omega)
  dropped _ _ hadds h hdropped := columns_of_dropped hadds h hdropped
  added _ hinHand hadds h hreached hit := columns_of_added hinHand hadds h hreached hit

theorem columns_of_course (hphase : start.phase = .equality 0)
    (hstanding : Standing P tolerance start) (hcolumns : Columns P [] start.iterate.snapshot)
    {history : List (Admission ℝ n slots m)} {s : Machine ℝ n slots m}
    (h : Course P limit tolerance start history s) : Columns P history s.iterate.snapshot :=
  ((upkeep_columns hcolumns).holds hphase hstanding h).throughout

end Machine

namespace Program

variable {program : Program ℝ} {limit : Int} {buffers : Option (Buffers ℝ)}
  {history : List (Admission ℝ program.dimension slots program.inequalityCount)}
  {s : Machine ℝ program.dimension slots program.inequalityCount}

/-- Every program that is built from arrays has a symmetric quadratic term. -/
theorem isSymmetric_of_ofInput {input : ProgramInput ℝ} {program : Program ℝ}
    (h : ofInput input = .ok program) : program.problem.quadratic.IsSymmetric := by
  unfold ofInput at h
  split at h
  · obtain ⟨⟨n, b⟩, -, h⟩ := ok_of_bind h
    obtain ⟨A, -, h⟩ := ok_of_bind h
    obtain ⟨inequalities, -, h⟩ := ok_of_bind h
    obtain ⟨equalities, -, h⟩ := ok_of_bind h
    cases h
    exact Mat.isSymmetric_symmetrized A
  · obtain ⟨b, -, h⟩ := ok_of_bind h
    obtain ⟨system, -, h⟩ := ok_of_bind h
    by_cases hempty : b.size = 0
    · rw [if_pos hempty] at h
      cases h
    · rw [if_neg hempty] at h
      obtain ⟨A, -, h⟩ := ok_of_bind h
      cases h
      exact Mat.isSymmetric_symmetrized A

/-- The factorization that a solve sets out with. -/
theorem columns_origin (hsymmetric : program.problem.quadratic.IsSymmetric)
    {L : Mat ℝ program.dimension program.dimension}
    (hfactor : Dense.factor program.problem.quadratic = .ok L)
    (workspace : Workspace ℝ program.dimension slots) :
    Columns program.problem [] (program.origin L workspace).iterate.snapshot := by
  refine ⟨Factored.of_count_eq_zero rfl ?_ ?_ (le_refl _), ?_⟩
  · exact Cholesky.mul_basis hsymmetric (Cholesky.factor_eq_ok.mp hfactor)
  · intro i k
    show (Mat.zero _ _).entry i k = 0
    rw [Mat.zero, Mat.entry_ofFn]
  · intro k hk
    exact absurd hk (Nat.not_lt_zero k)

theorem columns_of_course (hsymmetric : program.problem.quadratic.IsSymmetric)
    (h : program.Course limit buffers history s) :
    Columns program.problem history s.iterate.snapshot := by
  obtain ⟨L, workspace, hfactor, -, hcourse⟩ := h
  exact Machine.columns_of_course rfl (Machine.standing_start _ _ _ _ _)
    (columns_origin hsymmetric hfactor workspace) hcourse

/-- The factorization invariant, in every state of a solve: after any number of folds, deletions
and rollbacks in any order. `J Jᵀ` inverts the quadratic term; the triangle is zero outside the
upper triangle of its leading block; its diagonal is above the threshold and the greatest pivot is
at least one, so that taking out any active constraint skips no rotation. The image of an active
normal differs from its column by at most `√n · ε`, and not at all if the rotations skipped in that
constraint's own fold had nothing to clear. -/
theorem factorization_of_course (hsymmetric : program.problem.quadratic.IsSymmetric)
    (h : program.Course limit buffers history s) :
    let P := program.problem
    let ws := s.iterate.workspace
    P.quadratic.toMatrix * (ws.basis.toMatrix * ws.basis.toMatrixᵀ) = 1 ∧
      (∀ i k : Fin program.dimension, k.val < i.val ∨ ws.count ≤ k.val →
        ws.triangle.entry i k = 0) ∧
      (∀ k : Fin program.dimension, k.val < ws.count → Scalar.epsilon < |ws.triangle.entry k k|) ∧
      1 ≤ ws.pivotScale ∧
      (∀ p < ws.count, ∀ ab ∈ ws.erasePairs p, ¬ IsSkipped ab) ∧
      ws.count ≤ program.dimension ∧
      ∀ k : Fin program.dimension, k.val < ws.count →
        ∃ c a, P.constraint? (ws.label k) = some c ∧ ownFold history (ws.label k) = some a ∧
          let error := ws.basis.toMatrixᵀ *ᵥ c.normal.get - ws.triangle.columnAt k
          √(error ⬝ᵥ error) ≤ √program.dimension * Scalar.epsilon ∧
            (SkipsOnlyZeros (a.before.foldPairs P) → error = 0) := by
  intro P ws
  have hcolumns := columns_of_course hsymmetric h
  have hfactored := hcolumns.factored
  refine ⟨hfactored.inverse, hfactored.upper, hfactored.diagonal, hfactored.scale,
    fun p hp => hfactored.not_isSkipped_erasePairs hp, hfactored.count_le, ?_⟩
  intro k hk
  obtain ⟨met, hmet, hseating⟩ := (standing_of_course h).exists_seating
  obtain ⟨c, hc⟩ := hseating.exists_constraint P hmet hk
  obtain ⟨a, ha, hmissed⟩ := hcolumns.missed hk hc
  refine ⟨c, a, hc, ha, ?_, ?_⟩
  -- a fold has at most `n` pairs, and skips only what is below the threshold
  · have hle : uncleared (a.before.foldPairs P) ≤
        program.dimension * (Scalar.epsilon * Scalar.epsilon) := by
      refine (uncleared_le _).trans (mul_le_mul_of_nonneg_right ?_ (mul_self_nonneg _))
      exact_mod_cast Machine.length_foldPairs_le P a.before
    calc √(s.iterate.snapshot.factors.miss c.normal.get k ⬝ᵥ
            s.iterate.snapshot.factors.miss c.normal.get k)
        = √(uncleared (a.before.foldPairs P)) := by rw [hmissed]
      _ ≤ √(program.dimension * (Scalar.epsilon * Scalar.epsilon)) := Real.sqrt_le_sqrt hle
      _ = √program.dimension * Scalar.epsilon := by
        rw [Real.sqrt_mul (Nat.cast_nonneg _), Real.sqrt_mul_self Scalar.epsilon_pos.le]
  · intro hzeros
    rw [uncleared_eq_zero hzeros] at hmissed
    exact dotProduct_self_eq_zero.mp hmissed

end Program

/-! ## Two inequalities in a corner

The first wall is reached and folded in. Towards the second one it blocks: it is taken out again,
and the second wall is folded in alone. -/

/-- The nearest point in the corner of `8 x ≥ 8` and `x + y ≥ 5`. -/
noncomputable def Problem.corner (p : ℝ) : Problem ℝ 2 0 2 :=
  nearest p #v[] #v[⟨#v[8, 0], 8⟩, ⟨#v[1, 1], 5⟩]

/-- The problem as a program. -/
noncomputable def Program.corner (p : ℝ) : Program ℝ := ⟨Problem.corner p⟩

/-- The state that a solve in the corner sets out from. -/
noncomputable def Problem.cornerOrigin (p : ℝ) : Machine ℝ 2 2 2 :=
  origin p #v[] #v[⟨#v[8, 0], 8⟩, ⟨#v[1, 1], 5⟩]

/-- A solve in the corner when nothing is active. -/
structure AtStart (p : ℝ) (it : Iterate ℝ 2 2 2) : Prop where
  count : it.workspace.count = 0
  basis : it.workspace.basis.toMatrix = Matrix.diagonal fun _ => p
  scale : it.workspace.pivotScale = 1
  point : it.point.get = 0

/-- A solve in the corner once the first wall is active. -/
structure AtWall (p : ℝ) (it : Iterate ℝ 2 2 2) : Prop where
  count : it.workspace.count = 1
  label : it.workspace.label 0 = .inequality 0
  basis : it.workspace.basis.toMatrix = !![p, 0; 0, -p]
  triangle : it.workspace.triangle.entry 0 0 = 8 * p
  scale : it.workspace.pivotScale = max 1 (8 * p)
  dual : it.workspace.dual 0 = 1 / (8 * (p * p))
  point : it.point.get = ![1, 0]

/-- A solve in the corner once the first wall has been taken out. -/
structure PastWall (p : ℝ) (it : Iterate ℝ 2 2 2) : Prop where
  count : it.workspace.count = 0
  label : it.workspace.label 0 = .inequality 1
  basis : it.workspace.basis.toMatrix = !![p, 0; 0, -p]
  scale : it.workspace.pivotScale = max 1 (8 * p)
  slack : it.slack.get 1 = -3
  point : it.point.get = ![1, 1]

section Corner

variable {p : ℝ}

theorem epsilon_lt_square (hp : 1 ≤ p) : Scalar.epsilon < p * p * (p * p) :=
  Scalar.epsilon_lt_one.trans_le
    (one_le_mul_of_one_le_of_one_le (one_le_mul_of_one_le_of_one_le hp hp)
      (one_le_mul_of_one_le_of_one_le hp hp))

theorem Problem.get_normal_corner (p : ℝ) :
    ((Problem.corner p).inequalities.get 0).normal.get = ![8, 0] ∧
      ((Problem.corner p).inequalities.get 1).normal.get = ![1, 1] := by
  refine ⟨funext fun i => ?_, funext fun i => ?_⟩ <;> fin_cases i <;> rfl

theorem Problem.slack_corner (p : ℝ) (x : Vector ℝ 2) :
    ((Problem.corner p).slacks x).get 0 = 8 * x.get 0 - 8 ∧
      ((Problem.corner p).slacks x).get 1 = x.get 0 + x.get 1 - 5 := by
  rw [Iterate.get_slacks, Iterate.get_slacks, Constraint.slack, Constraint.slack, Vec.dot_eq,
    Vec.dot_eq, (get_normal_corner p).1, (get_normal_corner p).2, Matrix.vec2_dotProduct,
    Matrix.vec2_dotProduct]
  constructor
  · show 8 * x.get 0 + 0 * x.get 1 - 8 = _
    ring
  · show 1 * x.get 0 + 1 * x.get 1 - 5 = _
    ring

/-- No point at which the second wall is missed by three is near enough for the solve to stop. -/
theorem Program.violated_corner (hp : 1 ≤ p) {x : Vector ℝ 2} (hx : x.get 0 + x.get 1 ≤ 2) :
    Scalar.le (Scalar.abs ((Problem.corner p).infeasibilityAt x)) (Program.corner p).tolerance =
      false := by
  have hpos : 0 < p := one_pos.trans_le hp
  have htolerance : (Program.corner p).tolerance < 3 := by
    have heq : (Program.corner p).tolerance = 100 * (2 : Nat) * Scalar.epsilon *
        ((2 : Nat) * (2 : Nat)) / p := tolerance_nearest _ _ hpos
    rw [heq, Scalar.epsilon_real, div_lt_iff₀ hpos]
    norm_num
    linarith
  obtain ⟨hfirst, hsecond⟩ := Problem.slack_corner p x
  have hsum : (Problem.corner p).infeasibilityAt x =
      min (8 * x.get 0 - 8) 0 + min (x.get 0 + x.get 1 - 5) 0 := by
    rw [Problem.infeasibilityAt, Vec.sum_eq, Fin.sum_univ_two, Vector.get_map, Vector.get_map,
      hfirst, hsecond, Scalar.minimum_real, Scalar.minimum_real]
  have hfar : (Problem.corner p).infeasibilityAt x ≤ -3 := by
    rw [hsum]
    linarith [min_le_right (8 * x.get 0 - 8) 0, min_le_left (x.get 0 + x.get 1 - 5) 0]
  rw [Scalar.le_real, Scalar.abs_real, abs_of_nonpos (by linarith)]
  exact decide_eq_false (by linarith)

section Start

variable {it : Iterate ℝ 2 2 2} {c : Constraint ℝ 2}

theorem AtStart.get_image (h : AtStart p it) (hnormal : c.normal.get = ![8, 0]) :
    (it.workspace.aim c.normal).image.get = ![8 * p, 0] := by
  rw [Workspace.get_image_aim, h.basis, hnormal]
  funext i
  fin_cases i <;> simp [Matrix.mulVec_diagonal, mul_comm]

theorem AtStart.get_primal (h : AtStart p it) (hnormal : c.normal.get = ![8, 0]) :
    (it.workspace.aim c.normal).primal.get = ![8 * (p * p), 0] := by
  have hcount := h.count
  rw [Workspace.get_primal_aim, ← Workspace.get_image_aim, h.get_image hnormal, h.basis]
  funext i
  rw [Matrix.mulVec_diagonal, tailFrom_of_le (by omega)]
  fin_cases i
  · show p * (8 * p) = 8 * (p * p)
    ring
  · show p * 0 = 0
    ring

theorem AtStart.square (h : AtStart p it) (hnormal : c.normal.get = ![8, 0]) :
    Vec.dot (it.workspace.aim c.normal).primal (it.workspace.aim c.normal).primal =
      64 * (p * p * (p * p)) := by
  rw [Vec.dot_eq, h.get_primal hnormal, Matrix.vec2_dotProduct]
  show 8 * (p * p) * (8 * (p * p)) + 0 * 0 = 64 * (p * p * (p * p))
  ring

/-- Nothing blocks the way to the first wall. -/
theorem AtStart.plan (h : AtStart p it) (hp : 1 ≤ p) (hnormal : c.normal.get = ![8, 0])
    (direction : Vector ℝ (it.workspace.aim c.normal).count) :
    (it.workspace.aim c.normal).plan direction 0 (-8)
      ((it.workspace.aim c.normal).curvature c) = .full (1 / (8 * (p * p))) := by
  have hpos : 0 < p := one_pos.trans_le hp
  have hprimal := h.get_primal hnormal
  have hcurvature : (it.workspace.aim c.normal).curvature c = 64 * (p * p) := by
    rw [Workspace.curvature, Vec.dot_eq, hprimal, hnormal, Matrix.vec2_dotProduct]
    show 8 * (p * p) * 8 + 0 * 0 = 64 * (p * p)
    ring
  have hmove : (it.workspace.aim c.normal).canMove = true := by
    rw [Workspace.canMove_iff, h.square hnormal]
    linarith [epsilon_lt_square hp, Scalar.epsilon_pos]
  have hempty : (it.workspace.aim c.normal).count = 0 := h.count
  rw [Workspace.plan_of_free hmove (Workspace.blocking_of_empty hempty direction 0), hcurvature]
  congr 1
  field_simp
  norm_num

/-- The first wall is reached along its normal. -/
theorem AtStart.exists_reached (h : AtStart p it) (hp : 1 ≤ p)
    (hlabel : it.workspace.label 0 = .inequality 0) (hdual : it.workspace.dual 0 = 0)
    (hslack : it.slack.get 0 = -8) :
    ∃ it', it.Reached (Problem.corner p) 0 true it' ∧ AtWall p it' ∧
      it'.isActive = it.isActive := by
  have hcount := h.count
  have hpos : 0 < p := one_pos.trans_le hp
  have hnormal := (Problem.get_normal_corner p).1
  generalize hc : (Problem.corner p).inequalities.get 0 = c at hnormal
  have himage := h.get_image hnormal
  obtain ⟨direction, hdirection⟩ :
      ∃ direction, (it.workspace.aim c.normal).dualDirection = .ok direction :=
    Workspace.exists_dualDirection_of_empty hcount
  have hplan := h.plan hp hnormal direction
  rw [← hslack] at hplan
  have hlong : Scalar.epsilon < (it.workspace.aim c.normal).image.get 0 := by
    rw [himage]
    show Scalar.epsilon < 8 * p
    linarith [Scalar.epsilon_lt_one]
  have hempty : ((it.workspace.aim c.normal).shift (1 / (8 * (p * p))) direction).count = 0 :=
    hcount
  obtain ⟨ws₁, hfold, hcount₁, hscale₁, htriangle₁, hbasis₁⟩ :=
    Workspace.fold_of_axis hempty h.scale hlong (congrFun himage 1)
  obtain ⟨it', hreached, hworkspace, hpoint, hactive⟩ :=
    Iterate.exists_reached hc.symm rfl hdirection hplan hfold
  rw [← hworkspace] at hcount₁ hscale₁ htriangle₁ hbasis₁ hfold
  refine ⟨it', hreached, ⟨hcount₁, (Workspace.label_fold hfold 0).trans hlabel, ?_, ?_, ?_, ?_, ?_⟩,
    hactive⟩
  · -- the fold turns the second column of the basis round
    have hentry (r k : Fin 2) :
        it.workspace.basis.entry r k = Matrix.diagonal (fun _ => p) r k :=
      congrFun (congrFun h.basis r) k
    refine Matrix.ext fun r => Fin.forall_fin_two.mpr ⟨?_, ?_⟩
    · refine (hbasis₁ r).1.trans ((hentry r 0).trans ?_)
      fin_cases r <;> simp
    · refine (hbasis₁ r).2.trans ((congrArg Neg.neg (hentry r 1)).trans ?_)
      fin_cases r <;> simp
  · rw [htriangle₁]
    exact congrFun himage 0
  · rw [hscale₁]
    exact congrArg (max 1) (congrFun himage 0)
  · have hfree : (it.workspace.aim c.normal).count = 0 := hcount
    rw [Workspace.dual_fold hfold, Workspace.dual_shift (Nat.zero_le _), if_neg (by omega),
      if_pos hfree.symm]
    show it.workspace.dual 0 + _ = _
    rw [hdual, zero_add]
  · rw [hpoint, Vec.get_add, Vec.get_scale, h.point, h.get_primal hnormal, zero_add]
    funext i
    have hne := hpos.ne'
    fin_cases i
    · show 1 / (8 * (p * p)) * (8 * (p * p)) = 1
      field_simp
    · show 1 / (8 * (p * p)) * 0 = 0
      ring

end Start

section Wall

variable {it : Iterate ℝ 2 2 2} {c : Constraint ℝ 2}

/-- What the second wall's normal looks like once the first wall has turned the basis round. -/
theorem Workspace.get_image_of_turned (hbasis : it.workspace.basis.toMatrix = !![p, 0; 0, -p])
    (hnormal : c.normal.get = ![1, 1]) : (it.workspace.aim c.normal).image.get = ![p, -p] := by
  rw [get_image_aim, hbasis, hnormal]
  funext i
  fin_cases i <;> simp [Matrix.mulVec]

theorem AtWall.get_image (h : AtWall p it) (hnormal : c.normal.get = ![1, 1]) :
    (it.workspace.aim c.normal).image.get = ![p, -p] :=
  Workspace.get_image_of_turned h.basis hnormal

theorem AtWall.get_primal (h : AtWall p it) (hnormal : c.normal.get = ![1, 1]) :
    (it.workspace.aim c.normal).primal.get = ![0, p * p] := by
  have himage := h.get_image hnormal
  have htail : tailFrom 1 (it.workspace.aim c.normal).image.get = ![0, -p] := by
    rw [himage]
    funext i
    fin_cases i <;> rfl
  rw [Workspace.get_primal_aim, ← Workspace.get_image_aim, h.count, htail, h.basis]
  funext i
  fin_cases i <;> simp [Matrix.mulVec]

/-- The first wall's dual value falls by an eighth of the step. -/
theorem AtWall.exists_direction (h : AtWall p it) (hp : 0 < p) (hnormal : c.normal.get = ![1, 1]) :
    ∃ direction, (it.workspace.aim c.normal).dualDirection = .ok direction ∧
      Vec.extend direction 0 = 1 / 8 := by
  have hcount : (it.workspace.aim c.normal).count = 1 := h.count
  have hpivot : (it.workspace.aim c.normal).triangle.extend 0 0 = 8 * p :=
    (dif_pos ⟨Nat.two_pos, Nat.two_pos⟩).trans h.triangle
  obtain ⟨direction, hdirection⟩ :
      ∃ direction, (it.workspace.aim c.normal).dualDirection = .ok direction := by
    apply Workspace.exists_dualDirection
    intro k hk
    obtain rfl : k = 0 := by omega
    rw [hpivot]
    positivity
  refine ⟨direction, hdirection, ?_⟩
  have hsum := Workspace.sum_dualDirection (fun i hi k hk => by omega) hdirection
    (show 0 < (it.workspace.aim c.normal).count by omega)
  have hrange : Finset.range (it.workspace.aim c.normal).count = {0} := by
    rw [hcount]
    rfl
  rw [hrange, Finset.sum_singleton, hpivot, Vec.extend_of_lt _ Nat.two_pos] at hsum
  have hrow : Vec.extend direction 0 * (8 * p) = p :=
    hsum.trans (congrFun (h.get_image hnormal) 0)
  field_simp at hrow ⊢
  linarith

theorem AtWall.curvature (h : AtWall p it) (hnormal : c.normal.get = ![1, 1]) :
    (it.workspace.aim c.normal).curvature c = p * p := by
  rw [Workspace.curvature, Vec.dot_eq, h.get_primal hnormal, hnormal, Matrix.vec2_dotProduct]
  show 0 * 1 + p * p * 1 = p * p
  ring

theorem AtWall.square (h : AtWall p it) (hnormal : c.normal.get = ![1, 1]) :
    Vec.dot (it.workspace.aim c.normal).primal (it.workspace.aim c.normal).primal =
      p * p * (p * p) := by
  rw [Vec.dot_eq, h.get_primal hnormal, Matrix.vec2_dotProduct]
  show 0 * 0 + p * p * (p * p) = p * p * (p * p)
  ring

theorem AtWall.canMove (h : AtWall p it) (hp : 1 ≤ p) (hnormal : c.normal.get = ![1, 1]) :
    (it.workspace.aim c.normal).canMove = true := by
  rw [Workspace.canMove_iff, h.square hnormal]
  exact epsilon_lt_square hp

/-- Towards the second wall the first one blocks after a quarter of the way. -/
theorem AtWall.blocking (h : AtWall p it) (hp : 0 < p)
    {direction : Vector ℝ (it.workspace.aim c.normal).count}
    (hfalls : Vec.extend direction 0 = 1 / 8) :
    (it.workspace.aim c.normal).blocking direction 0 = some (1 / (p * p), .inequality 0) := by
  have hcount : (it.workspace.aim c.normal).count = 1 := h.count
  have hratio : (it.workspace.aim c.normal).dual 0 / Vec.extend direction 0 = 1 / (p * p) := by
    rw [hfalls, show (it.workspace.aim c.normal).dual 0 = _ from h.dual]
    field_simp
  have hsearched : List.range' 0 ((it.workspace.aim c.normal).count - 0) = [0] := by
    rw [hcount]
    rfl
  rw [Workspace.blocking_eq, hsearched, List.foldl_cons, List.foldl_nil, Workspace.closer,
    hratio, hfalls, show (it.workspace.aim c.normal).label 0 = _ from h.label]
  simp [Workspace.isShorter]

/-- Where that is far enough from the second wall, the first one is to be taken out. -/
theorem AtWall.plan (h : AtWall p it) (hp : 1 ≤ p) (hfar : Scalar.epsilon ≤ 3 / (p * p))
    (hnormal : c.normal.get = ![1, 1]) {direction : Vector ℝ (it.workspace.aim c.normal).count}
    (hfalls : Vec.extend direction 0 = 1 / 8) :
    (it.workspace.aim c.normal).plan direction 0 (-4)
      ((it.workspace.aim c.normal).curvature c) = .partway (1 / (p * p)) (.inequality 0) := by
  apply Workspace.plan_of_far (h.canMove hp hnormal) (h.blocking (one_pos.trans_le hp) hfalls)
  rw [h.curvature hnormal, neg_neg, ← sub_div]
  norm_num
  exact hfar

theorem AtWall.exists_dropped (h : AtWall p it) (hp : 1 ≤ p)
    (hfar : Scalar.epsilon ≤ 3 / (p * p)) (hlabel : it.workspace.label 1 = .inequality 1)
    (hslack : it.slack.get 1 = -4) :
    ∃ it', it.Dropped (Problem.corner p) 1 it' ∧ PastWall p it' ∧
      it'.isActive = Vec.set it.isActive 0 false := by
  have hpos : 0 < p := one_pos.trans_le hp
  have hnormal := (Problem.get_normal_corner p).2
  have hbound : ∀ x, ((Problem.corner p).inequalities.get 1).slack x =
      ((Problem.corner p).slacks x).get 1 := fun x => (Iterate.get_slacks _ x 1).symm
  generalize hc : (Problem.corner p).inequalities.get 1 = c at hnormal hbound
  have hcount : (it.workspace.aim c.normal).count = 1 := h.count
  obtain ⟨direction, hdirection, hfalls⟩ := h.exists_direction hpos hnormal
  have hplan := h.plan hp hfar hnormal hfalls
  rw [← hslack] at hplan
  have hfirst : ((it.workspace.aim c.normal).shift (1 / (p * p)) direction).position?
      (.inequality 0) 0 = some 0 :=
    Workspace.position?_eq_some_iff.mpr ⟨le_refl 0, hcount.symm ▸ Nat.one_pos, h.label,
      fun k _ hk => absurd hk (Nat.not_lt_zero k)⟩
  have hroom : (it.workspace.aim c.normal).count ≤ 2 := hcount.trans_le one_le_two
  refine ⟨_, .partway hc.symm rfl hdirection hplan rfl hfirst hroom rfl, ?_, rfl⟩
  have hpoint :
      (Vec.add it.point (Vec.scale (1 / (p * p)) (it.workspace.aim c.normal).primal)).get =
        ![1, 1] := by
    rw [Vec.get_add, Vec.get_scale, h.point, h.get_primal hnormal]
    funext i
    have hne := hpos.ne'
    fin_cases i
    · show 1 + 1 / (p * p) * 0 = 1
      ring
    · show 0 + 1 / (p * p) * (p * p) = 1
      field_simp
      ring
  refine ⟨?_, ?_, ?_, h.scale, ?_, hpoint⟩
  · show (it.workspace.aim c.normal).count - 1 = 0
    omega
  · exact (Workspace.label_eraseAt hroom (hcount.symm ▸ Nat.one_pos)).trans hlabel
  · exact (congrArg Mat.toMatrix (Workspace.basis_eraseAt_of_last hcount.symm)).trans h.basis
  · show (Vec.set it.slack 1 (c.slack _)).get 1 = -3
    rw [Vec.get_set, if_pos rfl, hbound, (Problem.slack_corner p _).2, hpoint]
    show (1 : ℝ) + 1 - 5 = -3
    norm_num

theorem PastWall.get_image (h : PastWall p it) (hnormal : c.normal.get = ![1, 1]) :
    (it.workspace.aim c.normal).image.get = ![p, -p] :=
  Workspace.get_image_of_turned h.basis hnormal

theorem PastWall.get_primal (h : PastWall p it) (hnormal : c.normal.get = ![1, 1]) :
    (it.workspace.aim c.normal).primal.get = ![p * p, p * p] := by
  have hcount := h.count
  rw [Workspace.get_primal_aim, ← Workspace.get_image_aim, h.get_image hnormal, h.basis]
  have htail : tailFrom it.workspace.count ![p, -p] = ![p, -p] := by
    funext i
    exact tailFrom_of_le (hcount.trans_le (Nat.zero_le _)) _
  rw [htail]
  funext i
  fin_cases i <;> simp [Matrix.mulVec]

theorem PastWall.square (h : PastWall p it) (hnormal : c.normal.get = ![1, 1]) :
    Vec.dot (it.workspace.aim c.normal).primal (it.workspace.aim c.normal).primal =
      2 * (p * p * (p * p)) := by
  rw [Vec.dot_eq, h.get_primal hnormal, Matrix.vec2_dotProduct]
  show p * p * (p * p) + p * p * (p * p) = 2 * (p * p * (p * p))
  ring

/-- Nothing blocks the way to the second wall any more. -/
theorem PastWall.plan (h : PastWall p it) (hp : 1 ≤ p) (hnormal : c.normal.get = ![1, 1])
    (direction : Vector ℝ (it.workspace.aim c.normal).count) :
    (it.workspace.aim c.normal).plan direction 0 (-3)
      ((it.workspace.aim c.normal).curvature c) = .full (3 / (2 * (p * p))) := by
  have hcurvature : (it.workspace.aim c.normal).curvature c = 2 * (p * p) := by
    rw [Workspace.curvature, Vec.dot_eq, h.get_primal hnormal, hnormal, Matrix.vec2_dotProduct]
    show p * p * 1 + p * p * 1 = 2 * (p * p)
    ring
  have hmove : (it.workspace.aim c.normal).canMove = true := by
    rw [Workspace.canMove_iff, h.square hnormal]
    linarith [epsilon_lt_square hp, Scalar.epsilon_pos]
  have hempty : (it.workspace.aim c.normal).count = 0 := h.count
  rw [Workspace.plan_of_free hmove (Workspace.blocking_of_empty hempty direction 0), hcurvature,
    neg_neg]

/-- The rotation that folds in the second wall alone. -/
theorem exists_rotation_of_diagonal (hp : 1 ≤ p) :
    ∃ g : Rotation ℝ, Rotation.ofPair? p (-p) Scalar.epsilon = some g ∧ p ≤ |g.length| := by
  have hlong : p ≤ Scalar.hypot p (-p) := (le_abs_self p).trans (Rotation.abs_le_hypot p (-p))
  obtain ⟨g, hpair⟩ :=
    Rotation.exists_ofPair? ((Scalar.epsilon_lt_one.le.trans hp).trans hlong)
  refine ⟨g, hpair, ?_⟩
  rw [(Rotation.clears_ofPair? Scalar.epsilon_pos hpair).abs_length]
  exact hlong

/-- The second wall is reached from the first one's side and folded in by a rotation. -/
theorem PastWall.exists_reached (h : PastWall p it) (hp : 1 ≤ p) :
    ∃ it', it.Reached (Problem.corner p) 1 true it' ∧ it'.workspace.count = 1 ∧
      it'.workspace.label 0 = .inequality 1 ∧ it'.point.get = ![5 / 2, 5 / 2] ∧
      it'.isActive = it.isActive := by
  have hcount := h.count
  have hpos : 0 < p := one_pos.trans_le hp
  have hnormal := (Problem.get_normal_corner p).2
  generalize hc : (Problem.corner p).inequalities.get 1 = c at hnormal
  have himage := h.get_image hnormal
  obtain ⟨direction, hdirection⟩ :
      ∃ direction, (it.workspace.aim c.normal).dualDirection = .ok direction :=
    Workspace.exists_dualDirection_of_empty hcount
  have hplan := h.plan hp hnormal direction
  rw [← h.slack] at hplan
  obtain ⟨g, hg, hlength⟩ := exists_rotation_of_diagonal hp
  have hpair : Rotation.ofPair? ((it.workspace.aim c.normal).image.get 0)
      ((it.workspace.aim c.normal).image.get 1) Scalar.epsilon = some g := by
    rw [himage]
    exact hg
  have hfree : ((it.workspace.aim c.normal).shift (3 / (2 * (p * p))) direction).count = 0 :=
    hcount
  obtain ⟨ws₁, hfold, hcount₁, -⟩ := Workspace.fold_of_plane hfree hpair (by
    rw [show ((it.workspace.aim c.normal).shift _ direction).pivotScale = _ from h.scale,
      max_eq_right (by linarith), Scalar.epsilon_real]
    linarith)
  obtain ⟨it', hreached, hworkspace, hpoint, hactive⟩ :=
    Iterate.exists_reached hc.symm rfl hdirection hplan hfold
  refine ⟨it', hreached, hworkspace ▸ hcount₁, ?_, ?_, hactive⟩
  · rw [hworkspace]
    exact (Workspace.label_fold hfold 0).trans h.label
  · rw [hpoint, Vec.get_add, Vec.get_scale, h.point, h.get_primal hnormal]
    have hne := hpos.ne'
    have hway : 1 + 3 / (2 * (p * p)) * (p * p) = 5 / 2 := by
      field_simp
      norm_num
    funext i
    fin_cases i
    · exact hway
    · exact hway

end Wall

/-- What a property of the states of a solve in the corner has to be checked for: iterates of three
kinds with a candidate in hand. -/
structure HoldsInCorner (p : ℝ) (Q : Machine ℝ 2 2 2 → Prop) : Prop where
  idle : ∀ s, s.inHand (Problem.corner p) = none → Q s
  start : ∀ it excluded fresh iterations evaluations, AtStart p it →
    Q ⟨it, .pass 0 excluded fresh, iterations, evaluations⟩
  wall : ∀ it excluded fresh iterations evaluations, AtWall p it →
    Q ⟨it, .pass 1 excluded fresh, iterations, evaluations⟩
  past : ∀ it excluded fresh iterations evaluations, PastWall p it →
    Q ⟨it, .pass 1 excluded fresh, iterations, evaluations⟩

section Path

variable {Q : Machine ℝ 2 2 2 → Prop} {limit : Nat} {it : Iterate ℝ 2 2 2}
  {iterations evaluations : Nat}

/-- The first wall is the more violated one, and is folded in. -/
theorem AtStart.exists_path (h : AtStart p it) (hp : 1 ≤ p) (hQ : HoldsInCorner p Q)
    (hinactive : ∀ i, it.isActive.get i = false) (hlimit : iterations < limit) :
    ∃ it', Machine.Path (Problem.corner p) limit (Program.corner p).tolerance Q
        ⟨it, .head, iterations, evaluations⟩ ⟨it', .head, iterations + 1, evaluations + 1⟩ ∧
      AtWall p it' ∧ it'.isActive.get 0 = true ∧ it'.isActive.get 1 = false := by
  obtain ⟨hslack₀, hslack₁⟩ := Problem.slack_corner p it.point
  rw [h.point] at hslack₀ hslack₁
  have hcandidate : (it.evaluate (Problem.corner p)).mostViolated (Vector.replicate 2 false) =
      some 0 := by
    apply Iterate.mostViolated_eq_some
    · refine (Iterate.isCandidate_replicate _ _).mpr ⟨hinactive 0, ?_⟩
      show ((Problem.corner p).slacks it.point).get 0 < 0
      rw [hslack₀]
      norm_num
    · intro k _ hk
      obtain rfl : k = 1 := by omega
      show ((Problem.corner p).slacks it.point).get 0 < ((Problem.corner p).slacks it.point).get 1
      rw [hslack₀, hslack₁]
      norm_num
  have hviolated := Program.violated_corner hp (x := it.point) (by rw [h.point]; norm_num)
  obtain ⟨begun, ws, events, fresh, hplace, hbegun, hchosen⟩ :=
    Machine.exists_begun hviolated hlimit (by rw [h.count]; omega)
      hcandidate
  obtain ⟨hroom, hws⟩ := Workspace.place_ok hplace
  have hentered : AtStart p { it.evaluate (Problem.corner p) with workspace := ws, events } :=
    ⟨by rw [hws]; exact h.count, by rw [hws]; exact h.basis, by rw [hws]; exact h.scale, h.point⟩
  have hdual : ws.dual 0 = 0 := (Workspace.dual_place hplace).trans (if_pos h.count.symm)
  have hlabel : ws.label 0 = .inequality 0 :=
    (Workspace.label_place hplace).trans (if_pos h.count.symm)
  obtain ⟨it', hreached, hwall, hactive⟩ :=
    hentered.exists_reached hp hlabel hdual (hslack₀.trans (by norm_num))
  obtain ⟨events', hadded⟩ := Machine.step_of_reached hreached
  refine ⟨_, .next (hQ.idle _ rfl) hbegun (.next (hQ.idle _ rfl) hchosen
    (.next (hQ.start _ _ _ _ _ hentered) hadded .refl)), ⟨hwall.count, hwall.label, hwall.basis,
      hwall.triangle, hwall.scale, hwall.dual, hwall.point⟩, ?_, ?_⟩
  · show (Vec.set it'.isActive 0 true).get 0 = true
    rw [Vec.get_set, if_pos rfl]
  · show (Vec.set it'.isActive 0 true).get 1 = false
    rw [Vec.get_set, if_neg (by decide), hactive]
    exact hinactive 1

/-- At the first wall the second one is the only candidate. -/
theorem AtWall.exists_begun (h : AtWall p it) (hp : 1 ≤ p) (hfirst : it.isActive.get 0 = true)
    (hsecond : it.isActive.get 1 = false) (hlimit : iterations < limit) :
    ∃ (begun it' : Iterate ℝ 2 2 2) (fresh : (Vector.replicate 2 false).get (1 : Fin 2) = false),
      Machine.step (Problem.corner p) limit (Program.corner p).tolerance
          ⟨it, .head, iterations, evaluations⟩ =
        .next ⟨begun, .select (Vector.replicate 2 false), iterations + 1, evaluations + 1⟩ ∧
      Machine.step (Problem.corner p) limit (Program.corner p).tolerance
          ⟨begun, .select (Vector.replicate 2 false), iterations + 1, evaluations + 1⟩ =
        .next ⟨it', .pass (1 : Fin 2) (Vector.replicate 2 false) fresh, iterations + 1,
          evaluations + 1⟩ ∧
      AtWall p it' ∧ it'.workspace.label 1 = .inequality 1 ∧ it'.slack.get 1 = -4 ∧
      it'.isActive = it.isActive := by
  obtain ⟨-, hslack⟩ := Problem.slack_corner p it.point
  rw [h.point] at hslack
  have hslack : ((Problem.corner p).slacks it.point).get 1 = -4 := by
    rw [hslack]
    show (1 : ℝ) + 0 - 5 = -4
    norm_num
  have hcandidate : (it.evaluate (Problem.corner p)).mostViolated (Vector.replicate 2 false) =
      some 1 := by
    apply Iterate.mostViolated_eq_some
    · refine (Iterate.isCandidate_replicate _ _).mpr ⟨hsecond, ?_⟩
      show ((Problem.corner p).slacks it.point).get 1 < 0
      rw [hslack]
      norm_num
    · intro k hk hne
      obtain rfl : k = 0 := by omega
      have hfree : it.isActive.get 0 = false := ((Iterate.isCandidate_replicate _ _).mp hk).1
      rw [hfirst] at hfree
      cases hfree
  have hviolated := Program.violated_corner hp (x := it.point) (by
    rw [h.point]
    show (1 : ℝ) + 0 ≤ 2
    norm_num)
  obtain ⟨begun, ws, events, fresh, hplace, hbegun, hchosen⟩ :=
    Machine.exists_begun hviolated hlimit (by rw [h.count]; omega)
      hcandidate
  obtain ⟨hroom, hws⟩ := Workspace.place_ok hplace
  have hbehind : 0 ≠ (it.workspace.save it.point it.value).count := by
    rw [show (it.workspace.save it.point it.value).count = 1 from h.count]
    exact Nat.zero_ne_one
  refine ⟨begun, _, fresh, hbegun, hchosen, ⟨?_, ?_, ?_, ?_, ?_, ?_, h.point⟩, ?_, hslack, rfl⟩
  · rw [hws]; exact h.count
  · exact (Workspace.label_place hplace).trans ((if_neg hbehind).trans h.label)
  · rw [hws]; exact h.basis
  · rw [hws]; exact h.triangle
  · rw [hws]; exact h.scale
  · exact (Workspace.dual_place hplace).trans ((if_neg hbehind).trans h.dual)
  · exact (Workspace.label_place hplace).trans (if_pos h.count.symm)

/-- The first wall is taken out on the way to the second one, which is folded in. -/
theorem AtWall.exists_path (h : AtWall p it) (hp : 1 ≤ p) (hfar : Scalar.epsilon ≤ 3 / (p * p))
    (hQ : HoldsInCorner p Q) (hfirst : it.isActive.get 0 = true)
    (hsecond : it.isActive.get 1 = false) (hlimit : iterations < limit) :
    ∃ it', Machine.Path (Problem.corner p) limit (Program.corner p).tolerance Q
        ⟨it, .head, iterations, evaluations⟩ ⟨it', .head, iterations + 1, evaluations + 1⟩ ∧
      it'.workspace.count = 1 ∧ it'.workspace.label 0 = .inequality 1 ∧
      it'.point.get = ![5 / 2, 5 / 2] := by
  obtain ⟨begun, it₁, fresh, hbegun, hchosen, hwall, hlabel, hslack, -⟩ :=
    h.exists_begun hp hfirst hsecond hlimit
  obtain ⟨it₂, hdropped, hpast, -⟩ := hwall.exists_dropped hp hfar hlabel hslack
  obtain ⟨it₃, hreached, hcount, hname, hpoint, -⟩ := hpast.exists_reached hp
  obtain ⟨events, hadded⟩ := Machine.step_of_reached hreached
  exact ⟨_, .next (hQ.idle _ rfl) hbegun (.next (hQ.idle _ rfl) hchosen
    (.next (hQ.wall _ _ _ _ _ hwall) (Machine.step_of_dropped hdropped)
      (.next (hQ.past _ _ _ _ _ hpast) hadded .refl))), hcount, hname, hpoint⟩

end Path

/-- The solve starts with nothing active. -/
theorem Problem.atStart_corner (hp : 0 < p) :
    AtStart p (cornerOrigin p).iterate ∧
      ∀ i, (cornerOrigin p).iterate.isActive.get i = false := by
  refine ⟨⟨rfl, basis_origin _ _ hp, rfl, point_origin _ _ hp⟩, fun i => ?_⟩
  show (Vector.replicate 2 false).get i = false
  simp [Vec.get_eq_getElem]

/-- From the start a solve goes to the head of an iteration at which the first wall is active. -/
theorem Problem.exists_path_wall {Q : Machine ℝ 2 2 2 → Prop} (hp : 1 ≤ p)
    (hQ : HoldsInCorner p Q) {limit : Nat} (hlimit : 0 < limit) :
    ∃ it, Machine.Path (corner p) limit (Program.corner p).tolerance Q (cornerOrigin p)
        ⟨it, .head, 1, 2⟩ ∧
      AtWall p it ∧ it.isActive.get 0 = true ∧ it.isActive.get 1 = false := by
  obtain ⟨hstart, hinactive⟩ := atStart_corner (one_pos.trans_le hp)
  obtain ⟨it, hpath, hwall⟩ := hstart.exists_path hp hQ hinactive hlimit
  exact ⟨it, .next (hQ.idle _ rfl) (Machine.step_of_allMet (le_refl 0)) hpath, hwall⟩

/-- At the point nearest to zero both walls are respected, and a solve stops. -/
theorem Program.stop_corner (hp : 1 ≤ p) {it : Iterate ℝ 2 2 2}
    (hpoint : it.point.get = ![5 / 2, 5 / 2]) (limit iterations evaluations : Nat) :
    Machine.step (Problem.corner p) limit (corner p).tolerance
        ⟨it, .head, iterations, evaluations⟩ =
      .stop .proper ⟨it.evaluate (Problem.corner p), .head, iterations, evaluations + 1⟩ := by
  apply Machine.stop_of_near
  obtain ⟨hfirst, hsecond⟩ := Problem.slack_corner p it.point
  rw [hpoint] at hfirst hsecond
  have hnone : (Problem.corner p).infeasibilityAt it.point = 0 := by
    rw [Problem.infeasibilityAt, Vec.sum_eq, Fin.sum_univ_two, Vector.get_map, Vector.get_map,
      hfirst, hsecond, Scalar.minimum_real, Scalar.minimum_real]
    show min (8 * (5 / 2) - 8) (0 : ℝ) + min (5 / 2 + 5 / 2 - 5) 0 = 0
    norm_num
  have htolerance : 0 ≤ (corner p).tolerance := by
    have heq : (corner p).tolerance = 100 * (2 : Nat) * Scalar.epsilon *
        ((2 : Nat) * (2 : Nat)) / p := tolerance_nearest _ _ (one_pos.trans_le hp)
    rw [heq, Scalar.epsilon_real]
    positivity
  rw [hnone, Scalar.le_real, Scalar.abs_real, abs_zero]
  exact decide_eq_true htolerance

/-- No rotation of the solve is skipped. -/
theorem Problem.skipsOnlyZeros_corner (hp : 1 ≤ p) :
    HoldsInCorner p fun s => SkipsOnlyZeros (s.foldPairs (corner p)) where
  idle s h := by
    rw [Machine.foldPairs, h]
    exact fun ab hab => absurd hab List.not_mem_nil
  start it _ _ _ _ h := by
    have hcount : (it.workspace.aim ((corner p).inequalities.get 0).normal).count = 0 := h.count
    rw [Machine.foldPairs_of_inHand rfl]
    apply Workspace.skipsOnlyZeros_of_plane hcount
    rw [h.get_image (get_normal_corner p).1]
    refine le_trans ?_ (le_abs_self (8 * p))
    linarith [Scalar.epsilon_lt_one]
  wall it _ _ _ _ h := by
    have hcount : (it.workspace.aim ((corner p).inequalities.get 1).normal).count = 1 := h.count
    rw [Machine.foldPairs_of_inHand rfl, Workspace.foldPairs_of_last (Nat.succ_le_succ hcount.ge)]
    exact fun ab hab => absurd hab List.not_mem_nil
  past it _ _ _ _ h := by
    have hcount : (it.workspace.aim ((corner p).inequalities.get 1).normal).count = 0 := h.count
    rw [Machine.foldPairs_of_inHand rfl]
    apply Workspace.skipsOnlyZeros_of_plane hcount
    rw [h.get_image (get_normal_corner p).2]
    refine le_trans ?_ (le_abs_self p)
    linarith [Scalar.epsilon_lt_one]

/-- A solve comes to work on the second wall while the first one is active. -/
theorem Program.exists_pass_corner (hp : 1 ≤ p) {limit : Int} (hlimit : 2 ≤ limit) :
    ∃ (history : List (Admission ℝ 2 2 2)) (it : Iterate ℝ 2 2 2)
      (fresh : (Vector.replicate 2 false).get (1 : Fin 2) = false),
      (corner p).Course limit none history
        ⟨it, .pass (1 : Fin 2) (Vector.replicate 2 false) fresh, 2, 3⟩ ∧
      AtWall p it ∧ it.slack.get 1 = -4 := by
  obtain ⟨it, hpath, hwall, hfirst, hsecond⟩ := Problem.exists_path_wall hp
    (Problem.skipsOnlyZeros_corner hp) (show 0 < limit.toNat by omega)
  obtain ⟨history, hcourse⟩ := hpath.exists_course
  obtain ⟨begun, it', fresh, hbegun, hchosen, hwall', -, hslack, -⟩ :=
    hwall.exists_begun hp hfirst hsecond (show 1 < limit.toNat by omega)
  exact ⟨_, it', fresh, course_nearest _ _ (one_pos.trans_le hp)
    ((hcourse.next hbegun).next hchosen), hwall', hslack⟩

section Far

variable (hp : 1 ≤ p) (hfar : Scalar.epsilon ≤ 3 / (p * p)) {limit : Int} (hlimit : 2 ≤ limit)
include hp hfar hlimit

/-- From there it goes to one at which the second wall alone is active. -/
theorem Program.exists_path_corner {Q : Machine ℝ 2 2 2 → Prop} (hQ : HoldsInCorner p Q) :
    ∃ it, Machine.Path (Problem.corner p) limit.toNat (corner p).tolerance Q
        (Problem.cornerOrigin p) ⟨it, .head, 2, 3⟩ ∧
      it.workspace.count = 1 ∧ it.workspace.label 0 = .inequality 1 ∧
      it.point.get = ![5 / 2, 5 / 2] := by
  obtain ⟨it₁, hpath₁, hwall, hfirst, hsecond⟩ :=
    Problem.exists_path_wall hp hQ (show 0 < limit.toNat by omega)
  obtain ⟨it₂, hpath₂, hcount, hlabel, hpoint⟩ :=
    hwall.exists_path hp hfar hQ hfirst hsecond (show 1 < limit.toNat by omega)
  exact ⟨it₂, hpath₁.trans hpath₂, hcount, hlabel, hpoint⟩

/-- What holds where a candidate is in hand holds in every state of the solve. -/
theorem Program.forall_corner {Q : Machine ℝ 2 2 2 → Prop} (hQ : HoldsInCorner p Q)
    {history : List (Admission ℝ 2 2 2)} {s : Machine ℝ 2 2 2}
    (h : (corner p).Course limit none history s) : Q s := by
  obtain ⟨it, hpath, -, -, hpoint⟩ := exists_path_corner hp hfar hlimit hQ
  exact forall_nearest _ _ (one_pos.trans_le hp) hpath (hQ.idle _ rfl)
    (Machine.isLast_of_stop (stop_corner hp hpoint _ _ _)) h

/-- The solve ends with the second wall alone active. -/
theorem Program.solve_corner :
    ∃ (answer : Solution ℝ 2 0 2) (history : List (Admission ℝ 2 2 2)) (last : Machine ℝ 2 2 2),
      ((corner p).solve none limit none).outcome = .ok answer ∧ answer.status = .proper ∧
      (corner p).Concludes limit none answer history last ∧ last.iterate.workspace.count = 1 ∧
      last.iterate.workspace.label 0 = .inequality 1 ∧ answer.point.get = ![5 / 2, 5 / 2] := by
  obtain ⟨it, hpath, hcount, hlabel, hpoint⟩ :=
    exists_path_corner hp hfar hlimit (Problem.skipsOnlyZeros_corner hp)
  obtain ⟨history, hcourse⟩ := hpath.exists_course
  obtain ⟨answer, hanswer, hproper, hconcludes⟩ :=
    exists_answer_nearest _ _ (one_pos.trans_le hp) two_ne_zero (by omega)
      (course_nearest _ _ (one_pos.trans_le hp) hcourse) (stop_corner hp hpoint _ _ _)
  refine ⟨answer, history, _, hanswer, hproper, hconcludes, hcount, hlabel, ?_⟩
  rw [hconcludes.point_eq]
  exact hpoint

end Far

/-- At this scale three units of way are above the threshold. -/
theorem Scalar.far_unit : (Scalar.epsilon : ℝ) ≤ 3 / (1 * 1) := by
  rw [epsilon_real]
  norm_num

/-- The first wall's column comes and goes, and that of the second wall is its image. -/
theorem Program.factorization_of_course_corner :
    (corner 1).problem.quadratic.IsSymmetric ∧
      (∃ (history : List (Admission ℝ 2 2 2)) (s : Machine ℝ 2 2 2),
        (corner 1).Course 100 none history s ∧ s.iterate.workspace.count = 1 ∧
          s.iterate.workspace.label 0 = .inequality 0) ∧
      ∃ (history : List (Admission ℝ 2 2 2)) (s : Machine ℝ 2 2 2),
        (corner 1).Course 100 none history s ∧
        let ws := s.iterate.workspace
        ws.count = 1 ∧ ws.label 0 = .inequality 1 ∧
          (Problem.corner 1).quadratic.toMatrix * (ws.basis.toMatrix * ws.basis.toMatrixᵀ) = 1 ∧
          (∀ i k : Fin 2, k.val < i.val ∨ ws.count ≤ k.val → ws.triangle.entry i k = 0) ∧
          Scalar.epsilon < |ws.triangle.entry 0 0| ∧ 1 ≤ ws.pivotScale ∧
          (∀ ab ∈ ws.erasePairs 0, ¬ IsSkipped ab) ∧
          ws.basis.toMatrixᵀ *ᵥ ((Problem.corner 1).inequalities.get 1).normal.get =
            ws.triangle.columnAt 0 := by
  have hsymmetric : (corner 1).problem.quadratic.IsSymmetric := Problem.isSymmetric_nearest _ _
  obtain ⟨earlier, it, fresh, hearlier, hwall, -⟩ :=
    exists_pass_corner (le_refl 1) (show (2 : Int) ≤ 100 by decide)
  obtain ⟨answer, history, last, -, -, hconcludes, hcount, hlabel, -⟩ :=
    solve_corner (le_refl 1) Scalar.far_unit (show (2 : Int) ≤ 100 by decide)
  have hcourse := hconcludes.course
  have hactive : (0 : Fin 2).val < last.iterate.workspace.count := by
    rw [hcount]
    exact Nat.one_pos
  obtain ⟨hinverse, hupper, hdiagonal, hscale, herase, -, hcolumn⟩ :=
    factorization_of_course hsymmetric hcourse
  obtain ⟨c, a, hc, ha, -, hexact⟩ := hcolumn (0 : Fin 2) hactive
  have hzeros : SkipsOnlyZeros (a.before.foldPairs (Problem.corner 1)) := by
    obtain ⟨before, hbefore⟩ := hcourse.exists_before (List.mem_of_find?_eq_some ha)
    exact forall_corner (le_refl 1) Scalar.far_unit (by decide)
      (Problem.skipsOnlyZeros_corner (le_refl 1)) hbefore
  have hnamed : (Problem.corner 1).constraint? (last.iterate.workspace.label 0) =
      some ((Problem.corner 1).inequalities.get 1) := by
    rw [hlabel]
    exact Problem.constraint?_inequality _ 1
  obtain rfl : (Problem.corner 1).inequalities.get 1 = c := Option.some.inj (hnamed.symm.trans hc)
  exact ⟨hsymmetric, ⟨earlier, _, hearlier, hwall.count, hwall.label⟩,
    history, last, hcourse, hcount, hlabel, hinverse, hupper, hdiagonal (0 : Fin 2) hactive, hscale,
    herase 0 hactive, sub_eq_zero.mp (hexact hzeros)⟩

end Corner

end ActiveSet

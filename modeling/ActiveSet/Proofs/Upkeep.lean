import ActiveSet.Proofs.Seating
/-
  What a solve maintains

  An invariant of a solve has two parts: one for the states between two
  candidates, which is stated of the snapshot and is what an undone iteration
  comes back to, and one for the states in which a candidate is being added.
  `Upkeep` lists what has to be shown of the five transitions that change
  anything; `Upkeep.holds` is the induction over the course, with the saved
  copy carried along for the iterations that are undone.
-/

namespace ActiveSet

variable {α : Type} {n e m slots : Nat}

theorem ownFold_cons_self {l : Label} {a : Admission α n slots m}
    {history : List (Admission α n slots m)} (h : a.label = l) :
    ownFold (a :: history) l = some a := by
  simp [ownFold, h]

theorem ownFold_cons_of_ne {l : Label} {a : Admission α n slots m}
    {history : List (Admission α n slots m)} (h : l ≠ a.label) :
    ownFold (a :: history) l = ownFold history l := by
  simp [ownFold, h.symm]

namespace Machine

variable [Scalar α]

/-- What has to be shown of an invariant: `settled` between two candidates, `moving` while one is
being added. -/
structure Upkeep (P : Problem α n e m) (limit : Nat) (tolerance : α)
    (start : Machine α n slots m)
    (settled : List (Admission α n slots m) → Snapshot α n slots → Prop)
    (moving : List (Admission α n slots m) → Fin m → Iterate α n slots m → Prop) : Prop where
  origin : settled [] start.iterate.snapshot
  met : ∀ {history : List (Admission α n slots m)} {s s' : Machine α n slots m} {i : Fin e},
    Course P limit tolerance start history s → Standing P tolerance s →
      s.phase = .equality i → settled history s.iterate.snapshot →
        s.iterate.Met P i s'.iterate →
          settled (⟨.equality i, s, s'⟩ :: history) s'.iterate.snapshot
  chosen : ∀ {history : List (Admission α n slots m)} {s : Machine α n slots m}
    {excluded : Vector Bool m} {candidate : Fin m} {ws : Workspace α n slots}
    {events : List (Event α)},
    Course P limit tolerance start history s → s.iterate.Rests P tolerance →
      settled history s.iterate.snapshot →
        s.iterate.mostViolated excluded = some candidate →
          s.iterate.workspace.place (.inequality candidate) 0 = .ok ws →
            moving history candidate { s.iterate with workspace := ws, events }
  dropped : ∀ {history : List (Admission α n slots m)} {s : Machine α n slots m}
    {it' : Iterate α n slots m} {candidate : Fin m},
    Course P limit tolerance start history s → s.inHand P = some (P.inequalities.get candidate) →
      s.iterate.Adds P tolerance candidate → moving history candidate s.iterate →
        s.iterate.Dropped P candidate it' → moving history candidate it'
  added : ∀ {history : List (Admission α n slots m)} {s s' : Machine α n slots m}
    {it' : Iterate α n slots m} {candidate : Fin m} {isActive : Vector Bool m},
    Course P limit tolerance start history s → s.inHand P = some (P.inequalities.get candidate) →
      s.iterate.Adds P tolerance candidate → moving history candidate s.iterate →
        s.iterate.Reached P candidate true it' → s'.iterate = { it' with isActive } →
          settled (⟨.inequality candidate, s, s'⟩ :: history) s'.iterate.snapshot

/-- What an invariant says of a state. While a candidate is being added, the saved copy is still
as it was between two candidates. -/
def Holds (settled : List (Admission α n slots m) → Snapshot α n slots → Prop)
    (moving : List (Admission α n slots m) → Fin m → Iterate α n slots m → Prop)
    (history : List (Admission α n slots m)) (s : Machine α n slots m) : Prop :=
  match s.phase with
  | .pass candidate _ _ =>
    moving history candidate s.iterate ∧ settled history s.iterate.workspace.saved
  | _ => settled history s.iterate.snapshot

variable {P : Problem α n e m} {limit : Nat} {tolerance : α} {start s : Machine α n slots m}
  {settled : List (Admission α n slots m) → Snapshot α n slots → Prop}
  {moving : List (Admission α n slots m) → Fin m → Iterate α n slots m → Prop}
  {history : List (Admission α n slots m)}

/-- A drop leaves the saved copy alone. -/
theorem saved_of_dropped {it it' : Iterate α n slots m} {candidate : Fin m}
    (h : it.Dropped P candidate it') : it'.workspace.saved = it.workspace.saved := by
  cases h with
  | dual hc hws => subst hws; rfl
  | partway hc hws => subst hws; rfl

/-- The invariant holds of every state of a solve. -/
theorem Upkeep.holds (u : Upkeep P limit tolerance start settled moving)
    (hphase : start.phase = .equality 0) (hstanding : Standing P tolerance start)
    (h : Course P limit tolerance start history s) : Holds settled moving history s := by
  induction h with
  | start =>
    rw [Holds, hphase]
    exact u.origin
  | @next history s s' hcourse hstep ih =>
    have hs : Standing P tolerance s := standing_of_course hstanding hcourse
    cases leads_of_step hstep with
    | met hmet => exact u.met hcourse hs rfl ih hmet
    | allMet hi => exact ih
    | begun hit hviolated hlimit =>
      subst hit
      exact ih
    | @chosen it ws excluded candidate events iterations evaluations hcandidate hplace fresh =>
      refine ⟨u.chosen hcourse hs ih hcandidate hplace, ?_⟩
      obtain ⟨_, hws⟩ := Workspace.place_ok hplace
      -- an iteration saves its copy at the start, and nothing has been changed since
      have hsaved : ws.saved = it.snapshot := by
        rw [hws]
        exact hs.saved.symm
      show settled history ws.saved
      rw [hsaved]
      exact ih
    | dropped hdropped =>
      refine ⟨u.dropped hcourse rfl hs ih.1 hdropped, ?_⟩
      show settled history _
      rw [saved_of_dropped hdropped]
      exact ih.2
    | added hreached => exact u.added hcourse rfl hs ih.1 hreached rfl
    | undone hreached hflags =>
      show settled history _
      have hsaved := hreached.keeps.2.1
      have hold := ih.2
      rw [← hsaved] at hold
      exact hold

omit [Scalar α] in
/-- An invariant that is the same while a candidate is being added holds all along. -/
theorem Holds.throughout
    (h : Holds settled (fun history _ it => settled history it.snapshot) history s) :
    settled history s.iterate.snapshot := by
  unfold Holds at h
  split at h
  · exact h.1
  · exact h

end Machine

end ActiveSet

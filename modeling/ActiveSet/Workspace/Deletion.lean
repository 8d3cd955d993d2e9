import ActiveSet.Workspace
import ActiveSet.Linear.Rotation
/-
  Taking a constraint out of the factorization

  The slots behind the constraint, the free one included, move one place
  forward, and so do the columns of the triangle. That leaves one entry below
  the diagonal in every moved column; one rotation each clears them, acting on
  the rows of the triangle and the columns of the basis. Equalities are never
  searched, so they stay.
-/

namespace ActiveSet

namespace Workspace

variable {α : Type} [Scalar α] {n slots : Nat}

/-- The first slot from `first` on that holds a name. -/
def position? (ws : Workspace α n slots) (label : Label) (first : Nat) : Option Nat :=
  (List.range' first (ws.count - first)).find? fun k => ws.label k = label

/-- The vector with entry `p` taken out of its first `count + 1` entries and `blank` put in at
their end. -/
def closeGap {β : Type} {k : Nat} (v : Vector β k) (p count : Nat) (blank : β) : Vector β k :=
  Vector.ofFn fun i =>
    if i.val < p then v.get i
    else if i.val < count then Vec.getOr v (i + 1) blank
    else if i.val = count then blank
    else v.get i

/-- The triangle with column `p` of its first `count` taken out and the last one cleared. -/
def closeColumn (R : Mat α n n) (p count : Nat) : Mat α n n :=
  Mat.ofFn fun i j =>
    if j.val < p then R.entry i j
    else if j.val + 1 < count then R.extend i (j + 1)
    else if j.val + 1 = count ∧ i.val < count then 0
    else R.entry i j

/-- Clears the entry below the diagonal in column `j` of a triangle with `count` columns. -/
def clearBelow (count : Nat) (s : Mat α n n × Mat α n n) (j : Nat) : Mat α n n × Mat α n n :=
  match neighbours? n j with
  | none => s
  | some (here, below) =>
    match Rotation.ofPair? (s.1.entry here here) (s.1.entry below here) Scalar.epsilon with
    | none => s
    | some g =>
      (g.onRows ((s.1.set below here 0).set here here g.length) here below
          fun k => decide (j < k.val ∧ k.val < count),
        g.onColumns s.2 here below fun _ => true)

/-- Makes the triangle triangular again from column `j` on, one column after the other. -/
def retriangulate (count : Nat) :
    (remaining j : Nat) → Mat α n n × Mat α n n → Mat α n n × Mat α n n
  | 0, _, s => s
  | k + 1, j, s => retriangulate count k (j + 1) (clearBelow count s j)

/-- Takes out the constraint in slot `p`. -/
def eraseAt (ws : Workspace α n slots) (p : Nat) : Workspace α n slots :=
  let count := ws.count - 1
  let (R, J) := retriangulate count (count - p) p (closeColumn ws.triangle p ws.count, ws.basis)
  { ws with
    count
    triangle := R
    basis := J
    active := closeGap ws.active p ws.count (.inequality 0)
    duals := closeGap ws.duals p ws.count 0 }

/-- The workspace with slot `p` and column `p` of its triangle overwritten by their successors. -/
def overwrite (ws : Workspace α n slots) (p : Nat) : Workspace α n slots :=
  { ws with
    active := Vector.ofFn fun i =>
      if i.val = p then Vec.getOr ws.active (p + 1) (.inequality 0) else ws.active.get i
    duals := Vector.ofFn fun i =>
      if i.val = p then Vec.extend ws.duals (p + 1) else ws.duals.get i
    triangle := Mat.ofFn fun i j =>
      if j.val = p then ws.triangle.extend i (p + 1) else ws.triangle.entry i j }

/-- Takes out a constraint, searched for behind the first `equalities` slots. With every slot in
use there is no free one to move up: the last but one is then overwritten before the end is
noticed, and from any other nothing moves at all. -/
def delete (ws : Workspace α n slots) (label : Label) (equalities : Nat) :
    Except (Fault × Workspace α n slots) (Workspace α n slots) :=
  match ws.position? label equalities with
  | none => .error (.notActive label.code, ws)
  | some p =>
    if ws.count ≤ slots then .ok (ws.eraseAt p)
    else if p + 2 = ws.count then .error (.indexOutOfRange, ws.overwrite p)
    else .error (.shapeMismatch, ws)

omit [Scalar α] in
theorem lt_count_of_position? {ws : Workspace α n slots} {label : Label} {first p : Nat}
    (h : ws.position? label first = some p) : p < ws.count := by
  have hp := List.mem_of_find?_eq_some h
  rw [List.mem_range'_1] at hp
  omega

theorem count_of_delete {ws ws' : Workspace α n slots} {label : Label} {first : Nat}
    (h : ws.delete label first = .ok ws') : ws'.count < ws.count := by
  unfold delete at h
  split at h
  · cases h
  · next p hp =>
    have hlt := lt_count_of_position? hp
    split at h
    · cases h
      show ws.count - 1 < ws.count
      omega
    · split at h <;> cases h

end Workspace

end ActiveSet

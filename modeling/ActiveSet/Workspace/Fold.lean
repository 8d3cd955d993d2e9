import ActiveSet.Workspace
import ActiveSet.Linear.Rotation
/-
  Adding a constraint to the factorization

  Rotations clear the image of the new normal from the bottom up to the entry
  after the active ones, and turn the columns of the basis with it. What is
  left of the image becomes the next column of the triangle. A new diagonal
  entry that is negligible beside the greatest one so far means that the
  normal depends on the active ones: the constraint is then counted but
  refused, and the caller has to undo it.
-/

namespace ActiveSet

namespace Workspace

variable {α : Type} [Scalar α] {n slots : Nat}

/-- Clears entry `j + 1` of the image against entry `j`. -/
def clearNext (s : Vector α n × Mat α n n) (j : Nat) : Vector α n × Mat α n n :=
  match neighbours? n j with
  | none => s
  | some (here, next) =>
    match Rotation.ofPair? (s.1.get here) (s.1.get next) Scalar.epsilon with
    | none => s
    | some g =>
      (Vec.set (Vec.set s.1 next 0) here g.length, g.onColumns s.2 here next fun _ => true)

/-- Clears the entries of the image after `stop`, from entry `j` upwards. -/
def clearTail (stop : Nat) : Nat → Vector α n × Mat α n n → Vector α n × Mat α n n
  | 0, s => s
  | j + 1, s => if stop ≤ j then clearTail stop j (clearNext s j) else s

/-- The triangle with a new column over its leading block. -/
def withColumn (R : Mat α n n) (d : Vector α n) (count : Nat) : Mat α n n :=
  Mat.ofFn fun i j => if j.val = count ∧ i.val ≤ count then d.get i else R.entry i j

/-- Adds the constraint whose image is in hand, and tells whether it was accepted. A full
triangle takes no more. -/
def fold (ws : Workspace α n slots) : Workspace α n slots × Bool :=
  if n ≤ ws.count then (ws, false)
  else
    let (d, J) := clearTail ws.count (n - 1) (ws.image, ws.basis)
    let pivot := Scalar.abs (Vec.extend d ws.count)
    let grown :=
      { ws with
        count := ws.count + 1
        image := d
        basis := J
        triangle := withColumn ws.triangle d ws.count }
    if Scalar.le pivot (Scalar.epsilon * ws.pivotScale) then (grown, false)
    else ({ grown with pivotScale := Scalar.larger ws.pivotScale pivot }, true)

end Workspace

end ActiveSet

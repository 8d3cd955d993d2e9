import ActiveSet.Linear.Basic
/-
  Plane rotations

  A rotation takes a pair `(a, b)` to `(h, 0)` with `|h|` the pair's length.
  It acts as the symmetric reflection `[[c, s], [s, -c]]`, with its sign
  chosen so that `c` is not negative; `h` then has the sign of `a`. On two
  columns of a matrix the second is updated from the new first one, by
  `s / (1 + c) · (first + new first) - second`, which saves a product and
  equals the reflection because `c² + s² = 1`.
-/

namespace ActiveSet

/-- The reflection `[[cosine, sine], [sine, -cosine]]` and the value it leaves in the first
component of the pair that it was made for. -/
structure Rotation (α : Type) where
  cosine : α
  sine : α
  length : α

namespace Rotation

variable {α : Type} [Scalar α]

/-- The rotation that clears `b` against `a`; none when the pair is shorter than the
threshold, so that there is nothing to rotate. -/
def ofPair? (a b threshold : α) : Option (Rotation α) :=
  let h := Scalar.hypot a b
  if Scalar.lt h threshold then none
  else
    let c := a / h
    let s := b / h
    if Scalar.lt c 0 then some ⟨-c, -s, -h⟩ else some ⟨c, s, h⟩

/-- The new entry of the first column. -/
def first (g : Rotation α) (u v : α) : α := g.cosine * u + g.sine * v

/-- The new entry of the second column, from the new entry of the first. -/
def second (g : Rotation α) (u v : α) : α :=
  (g.sine / (1 + g.cosine)) * (u + g.first u v) - v

/-- The matrix with two of its columns rotated in the rows that `rows` admits; where both
columns are one, the second update is the one that stays. -/
def onColumns {m n : Nat} (g : Rotation α) (A : Mat α m n) (i j : Fin n)
    (rows : Fin m → Bool) : Mat α m n :=
  ⟨Vector.ofFn fun r =>
    if rows r then
      let u := A.entry r i
      let v := A.entry r j
      Vec.set (Vec.set (A.row r) i (g.first u v)) j (g.second u v)
    else A.row r⟩

/-- The matrix with two of its rows rotated in the columns that `columns` admits. -/
def onRows {m n : Nat} (g : Rotation α) (A : Mat α m n) (i j : Fin m)
    (columns : Fin n → Bool) : Mat α m n :=
  (g.onColumns A.transpose i j columns).transpose

theorem entry_onColumns {m n : Nat} (g : Rotation α) (A : Mat α m n) (i j : Fin n)
    (rows : Fin m → Bool) (r : Fin m) (k : Fin n) :
    (g.onColumns A i j rows).entry r k =
      if rows r then
        if k = j then g.second (A.entry r i) (A.entry r j)
        else if k = i then g.first (A.entry r i) (A.entry r j)
        else A.entry r k
      else A.entry r k := by
  by_cases hr : rows r = true
  · simp only [onColumns, Mat.entry, Mat.row, hr, if_true, Vec.get_ofFn, Vec.get_set,
      @eq_comm _ k]
  · simp [onColumns, Mat.entry, Mat.row, hr]

theorem entry_onRows {m n : Nat} (g : Rotation α) (A : Mat α m n) (i j : Fin m)
    (columns : Fin n → Bool) (r : Fin m) (k : Fin n) :
    (g.onRows A i j columns).entry r k =
      if columns k then
        if r = j then g.second (A.entry i k) (A.entry j k)
        else if r = i then g.first (A.entry i k) (A.entry j k)
        else A.entry r k
      else A.entry r k := by
  rw [onRows, Mat.transpose, Mat.entry_ofFn, entry_onColumns]
  simp only [Mat.transpose, Mat.entry_ofFn]

end Rotation

end ActiveSet

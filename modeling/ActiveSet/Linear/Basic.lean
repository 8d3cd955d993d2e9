import ActiveSet.Scalar
/-
  Vectors and matrices of fixed size

  A vector is core's `Vector`; a matrix holds its rows. Both are read through
  entries: `Mat.ofFn` builds a matrix from its entries, `Mat.entry` reads one,
  and `entry_ofFn` says that the second undoes the first, so a statement about
  a matrix operation is a statement about entries.

  `Vec.extend` and `Mat.extend` read past the end as zero. That is the natural
  reading where a leading block of a larger buffer is taken.
-/

namespace ActiveSet

variable {α : Type}

/-- Two positions next to each other, if both are there. -/
def neighbours? (n j : Nat) : Option (Fin n × Fin n) :=
  if h : j + 1 < n then some (⟨j, Nat.lt_of_succ_lt h⟩, ⟨j + 1, h⟩) else none

theorem val_of_neighbours? {n j : Nat} {here next : Fin n}
    (h : neighbours? n j = some (here, next)) : here.val = j ∧ next.val = j + 1 := by
  unfold neighbours? at h
  split at h
  · cases h
    exact ⟨rfl, rfl⟩
  · cases h

namespace Vec

/-- The entry at a position; zero past the end. -/
def extend [Zero α] {n : Nat} (v : Vector α n) (i : Nat) : α :=
  if h : i < n then v.get ⟨i, h⟩ else 0

/-- The entry at a position; a given value past the end. -/
def getOr {β : Type} {n : Nat} (v : Vector β n) (i : Nat) (blank : β) : β :=
  if h : i < n then v.get ⟨i, h⟩ else blank

/-- The vector whose entries are all zero. -/
def zero [Zero α] (n : Nat) : Vector α n := Vector.replicate n 0

/-- The vector with a one in the given position and zeros elsewhere. -/
def unit [Zero α] [One α] {n : Nat} (k : Fin n) : Vector α n :=
  Vector.ofFn fun i => if i = k then 1 else 0

/-- The sum of the entries, added from the left. -/
def sum [Add α] [Zero α] {n : Nat} (v : Vector α n) : α := v.foldl (· + ·) 0

/-- The inner product, added from the left. -/
def dot [Add α] [Mul α] [Zero α] {n : Nat} (u v : Vector α n) : α :=
  Fin.foldl n (fun s i => s + u.get i * v.get i) 0

/-- The entrywise sum. -/
def add [Add α] {n : Nat} (u v : Vector α n) : Vector α n :=
  Vector.ofFn fun i => u.get i + v.get i

/-- The entrywise difference. -/
def sub [Sub α] {n : Nat} (u v : Vector α n) : Vector α n :=
  Vector.ofFn fun i => u.get i - v.get i

/-- The vector multiplied by a number from the left. -/
def scale [Mul α] {n : Nat} (s : α) (v : Vector α n) : Vector α n := v.map (s * ·)

/-- The vector with every sign changed. -/
def neg [Neg α] {n : Nat} (v : Vector α n) : Vector α n := v.map (- ·)

/-- The vector with one entry replaced. -/
def set {β : Type} {n : Nat} (v : Vector β n) (i : Fin n) (x : β) : Vector β n :=
  Vector.set v i.val x i.isLt

theorem get_eq_getElem {β : Type} {n : Nat} (v : Vector β n) (i : Fin n) : v.get i = v[i.val] :=
  rfl

@[simp] theorem get_ofFn {β : Type} {n : Nat} (f : Fin n → β) (i : Fin n) :
    (Vector.ofFn f).get i = f i := by
  simp [get_eq_getElem]

theorem get_set {β : Type} {n : Nat} (v : Vector β n) (i : Fin n) (x : β) (k : Fin n) :
    (Vec.set v i x).get k = if i = k then x else v.get k := by
  simp [Vec.set, get_eq_getElem, Vector.getElem_set, Fin.ext_iff]

/-- The vector with one more entry in front. -/
def cons {n : Nat} (x : α) (v : Vector α n) : Vector α (n + 1) :=
  Vector.ofFn (Fin.cases x fun i => v.get i)

@[simp] theorem cons_zero {n : Nat} (x : α) (v : Vector α n) : (cons x v).get 0 = x := by
  rw [cons, get_ofFn]
  rfl

@[simp] theorem cons_succ {n : Nat} (x : α) (v : Vector α n) (i : Fin n) :
    (cons x v).get i.succ = v.get i := by
  simp [cons]

/-- The greatest absolute value of an entry, or a NaN if there is one; zero without entries. -/
def maxAbs [Scalar α] {n : Nat} (v : Vector α n) : α :=
  v.foldl (fun s x => Scalar.maximum s (Scalar.abs x)) 0

theorem extend_of_lt [Zero α] {n : Nat} (v : Vector α n) {i : Nat} (h : i < n) :
    Vec.extend v i = v.get ⟨i, h⟩ := by
  simp [Vec.extend, h]

theorem extend_of_ge [Zero α] {n : Nat} (v : Vector α n) {i : Nat} (h : n ≤ i) :
    Vec.extend v i = 0 := by
  simp [Vec.extend, Nat.not_lt.2 h]

end Vec

/-- A matrix with `m` rows and `n` columns, by rows. -/
structure Mat (α : Type) (m n : Nat) where
  rows : Vector (Vector α n) m

namespace Mat

variable {m n : Nat}

/-- The matrix with the given entries. -/
def ofFn (f : Fin m → Fin n → α) : Mat α m n := ⟨Vector.ofFn fun i => Vector.ofFn (f i)⟩

/-- The entry in row `i` and column `j`. -/
def entry (A : Mat α m n) (i : Fin m) (j : Fin n) : α := (A.rows.get i).get j

@[simp] theorem entry_ofFn (f : Fin m → Fin n → α) (i : Fin m) (j : Fin n) :
    (ofFn f).entry i j = f i j := by
  simp [ofFn, entry]

theorem ext_entry {A B : Mat α m n} (h : ∀ i j, A.entry i j = B.entry i j) : A = B := by
  obtain ⟨a⟩ := A
  obtain ⟨b⟩ := B
  congr
  ext i hi j hj
  exact h ⟨i, hi⟩ ⟨j, hj⟩

/-- The entry at a position; zero outside the matrix. -/
def extend [Zero α] (A : Mat α m n) (i j : Nat) : α :=
  if h : i < m ∧ j < n then A.entry ⟨i, h.1⟩ ⟨j, h.2⟩ else 0

/-- The row at a position. -/
def row (A : Mat α m n) (i : Fin m) : Vector α n := A.rows.get i

/-- The column at a position. -/
def column (A : Mat α m n) (j : Fin n) : Vector α m := Vector.ofFn fun i => A.entry i j

/-- The matrix with the given columns. -/
def ofColumns (columns : Vector (Vector α m) n) : Mat α m n :=
  ofFn fun i j => (columns.get j).get i

/-- The matrix whose entries are all zero. -/
def zero [Zero α] (m n : Nat) : Mat α m n := ofFn fun _ _ => 0

/-- The matrix reflected in its diagonal. -/
def transpose (A : Mat α m n) : Mat α n m := ofFn fun i j => A.entry j i

/-- The product with a column vector. -/
def mulVec [Add α] [Mul α] [Zero α] (A : Mat α m n) (x : Vector α n) : Vector α m :=
  Vector.ofFn fun i => Vec.dot (A.row i) x

/-- The sum of the diagonal entries, added from the left. -/
def trace [Add α] [Zero α] (A : Mat α n n) : α := Fin.foldl n (fun s i => s + A.entry i i) 0

/-- The first `k` rows and columns; zero where the matrix has none. -/
def leading [Zero α] (A : Mat α m n) (k : Nat) : Mat α k k := ofFn fun i j => A.extend i j

/-- The matrix without its first row and its first column. -/
def tail (A : Mat α (m + 1) (n + 1)) : Mat α m n := ofFn fun i j => A.entry i.succ j.succ

/-- The matrix with one entry replaced. -/
def set (A : Mat α m n) (i : Fin m) (j : Fin n) (x : α) : Mat α m n :=
  ⟨Vec.set A.rows i (Vec.set (A.row i) j x)⟩

/-- The mean of a square matrix and its transpose. -/
def symmetrized [Scalar α] (A : Mat α n n) : Mat α n n :=
  ofFn fun i j => Scalar.half * (A.entry i j + A.entry j i)

theorem entry_set (A : Mat α m n) (i : Fin m) (j : Fin n) (x : α) (k : Fin m) (l : Fin n) :
    (A.set i j x).entry k l = if i = k ∧ j = l then x else A.entry k l := by
  simp only [set, entry, row, Vec.get_set]
  by_cases hi : i = k <;> by_cases hj : j = l <;> simp [hi, hj, Vec.get_set]

end Mat

end ActiveSet

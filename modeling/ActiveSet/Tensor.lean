import ActiveSet.Linear.Basic
import ActiveSet.Fault
/-
  Rectangular arrays of any rank

  Data arrives as numbers in nested lists. `Nested.tensor` accepts the lists
  that are rectangular, and `Tensor` keeps their shape beside their entries in
  order. The empty list has no further levels, so it has the one length zero.
  `flat?`, `matrix` and `columns` view a tensor as the sized vectors and
  matrices that the rest of the library computes with.
-/

namespace ActiveSet

/-- A number, or a list of such values. -/
inductive Nested (α : Type) where
  | number (x : α)
  | list (items : List (Nested α))

/-- The number of entries of an array with the given lengths along its axes. -/
def entryCount : List Nat → Nat
  | [] => 1
  | n :: shape => n * entryCount shape

/-- A rectangular array: the lengths along its axes, and its entries with the last axis moving
fastest. -/
structure Tensor (α : Type) where
  shape : List Nat
  entries : List α
  length_entries : entries.length = entryCount shape

namespace Tensor

variable {α : Type}

theorem length_flatMap_of_forall {β : Type} {f : β → List α} {k : Nat} {l : List β}
    (h : ∀ x ∈ l, (f x).length = k) : (l.flatMap f).length = l.length * k := by
  induction l with
  | nil => simp
  | cons x l ih =>
    have hx := h x (List.mem_cons_self ..)
    have hl := ih fun y hy => h y (List.mem_cons_of_mem _ hy)
    simp [List.flatMap_cons, List.length_append, hx, hl, Nat.add_mul, Nat.add_comm]

/-- The greatest number of axes. -/
def maxRank : Nat := 64

/-- The array whose first axis runs over the given arrays; they must agree in shape and leave room
for one more axis. -/
def stack (ts : List (Tensor α)) : Except Fault (Tensor α) :=
  let shape := (ts.head?.map Tensor.shape).getD []
  if maxRank ≤ shape.length then .error .ragged
  else if h : ∀ t ∈ ts, t.shape = shape then
    .ok
      { shape := ts.length :: shape
        entries := ts.flatMap entries
        length_entries := by
          rw [length_flatMap_of_forall fun t m => by rw [t.length_entries, h t m]]
          rfl }
  else .error .ragged

/-- A tensor without axes: one number. -/
def number (x : α) : Tensor α := ⟨[], [x], rfl⟩

/-- The number of axes. -/
def rank (t : Tensor α) : Nat := t.shape.length

/-- The number of entries. -/
def size (t : Tensor α) : Nat := t.entries.length

/-- All entries in order, whatever the shape. -/
def flat (t : Tensor α) : Vector α t.size := ⟨t.entries.toArray, by simp [size]⟩

/-- All entries in order, if there are as many as asked for. -/
def flat? (t : Tensor α) (n : Nat) : Option (Vector α n) :=
  if h : t.size = n then some (h ▸ t.flat) else none

/-- The columns of the entries read as a matrix with `m` rows and `k` columns. -/
def columns [Zero α] (t : Tensor α) (m k : Nat) : List (Vector α m) :=
  let entries := t.entries.toArray
  (List.range k).map fun j => Vector.ofFn fun i => entries.getD (i * k + j) 0

/-- The entries read as a matrix with `m` rows and `n` columns. -/
def matrix [Zero α] (t : Tensor α) (m n : Nat) : Mat α m n :=
  let entries := t.entries.toArray
  Mat.ofFn fun i j => entries.getD (i * n + j) 0

/-- The square matrix that the tensor is, with its dimension. -/
def square [Zero α] (t : Tensor α) : Except Fault ((n : Nat) × Mat α n n) :=
  match t.shape with
  | [m, n] => if m = n then .ok ⟨n, t.matrix n n⟩ else .error .notSquare
  | _ => .error .notSquare

/-- A vector as an array with one axis. -/
def ofVector {n : Nat} (v : Vector α n) : Tensor α := ⟨[n], v.toList, by simp [entryCount]⟩

/-- A matrix as an array with two axes. -/
def ofMat {m n : Nat} (A : Mat α m n) : Tensor α where
  shape := [m, n]
  entries := A.rows.toList.flatMap Vector.toList
  length_entries := by
    rw [length_flatMap_of_forall fun row _ => row.length_toList]
    simp [entryCount]

end Tensor

mutual

/-- The array that nested lists denote; lists that are not rectangular denote none. -/
def Nested.tensor {α : Type} : Nested α → Except Fault (Tensor α)
  | .number x => .ok (Tensor.number x)
  | .list items => do Tensor.stack (← Nested.tensors items)

/-- The arrays that the items of a list denote. -/
def Nested.tensors {α : Type} : List (Nested α) → Except Fault (List (Tensor α))
  | [] => .ok []
  | item :: rest => do return (← item.tensor) :: (← Nested.tensors rest)

end

end ActiveSet

import ActiveSet.Tensor.Broadcast
/-
  Arrays of arrays

  An operation on arrays of a low rank extends to arrays of any rank: the last
  axes belong to the operation, and the axes before them, the batch, number
  its applications. The operation runs for one position of the batch after
  the other, and the first failure is the failure of all. Two arrays have
  their batches aligned in the way in which arrays are that combine entry by
  entry.
-/

namespace ActiveSet

namespace Tensor

variable {α : Type}

/-- The lengths of the axes before the last `core` ones. -/
def batchShape (t : Tensor α) (core : Nat) : List Nat := t.shape.take (t.rank - core)

/-- The lengths of the last `core` axes, or of all if there are fewer. -/
def coreShape (t : Tensor α) (core : Nat) : List Nat := t.shape.drop (t.rank - core)

/-- The array along the last `core` axes that belongs to a position of an aligned batch. -/
def slice [Zero α] (t : Tensor α) (core : Nat) (position : List Nat) : Tensor α :=
  let batch := t.batchShape core
  let shape := t.coreShape core
  let first := offset batch (ownPosition batch position) * entryCount shape
  let entries := t.entries.toArray
  tabulate shape fun p => entries.getD (first + offset shape p) 0

/-- The array whose batch has the given shape and the given arrays at its positions. -/
def gather (batch : List Nat) (items : List (Tensor α)) : Except Fault (Tensor α) := do
  let all ← stack items
  all.reshape (batch ++ all.shape.drop 1)

/-- An operation on arrays with `core` axes, for every position of a batch. -/
def overBatch [Zero α] (core : Nat) (f : Tensor α → Except Fault (Tensor α)) (t : Tensor α) :
    Except Fault (Tensor α) :=
  match t.batchShape core with
  | [] => f t
  | batch => do gather batch (← (positions batch).mapM fun p => f (t.slice core p))

/-- An operation on two arrays with `core` and `core'` axes, for every position of their common
batch. -/
def overBatches [Zero α] (core core' : Nat)
    (f : Tensor α → Tensor α → Except Fault (Tensor α)) (t t' : Tensor α) :
    Except Fault (Tensor α) :=
  match commonShape? (t.batchShape core) (t'.batchShape core') with
  | none => .error .shapeMismatch
  | some [] => f t t'
  | some batch => do
    gather batch (← (positions batch).mapM fun p => f (t.slice core p) (t'.slice core' p))

end Tensor

end ActiveSet

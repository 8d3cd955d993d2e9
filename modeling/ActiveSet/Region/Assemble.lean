import ActiveSet.Region
/-
  The constraints of several regions as one system

  Regions are joined in the order in which they are given, each kind of
  constraint keeping that order. The first region that does not fit, or value
  that is no region, ends the assembly; where no dimension is asked for, the
  first region sets it.
-/

namespace ActiveSet

/-- Something given as a region: a region, or a value of another type. -/
inductive RegionInput (α : Type) where
  | region (r : Region α)
  | other (type : String)

/-- The inequalities and equalities that points of one dimension have to meet. -/
structure ConstraintSet (α : Type) (n : Nat) where
  inequalities : List (Constraint α n)
  equalities : List (Constraint α n)

namespace ConstraintSet

variable {α : Type} [Scalar α]

/-- The system without constraints. -/
def empty {n : Nat} : ConstraintSet α n := ⟨[], []⟩

/-- The system with more constraints of one kind in front. -/
def prepend {n : Nat} (kind : ConstraintKind) (cs : List (Constraint α n))
    (s : ConstraintSet α n) : ConstraintSet α n :=
  match kind with
  | .inequality => { s with inequalities := cs ++ s.inequalities }
  | .equality => { s with equalities := cs ++ s.equalities }

/-- Joins regions of a known dimension. -/
def collect (n : Nat) : List (RegionInput α) → Except Fault (ConstraintSet α n)
  | [] => .ok empty
  | .other type :: _ => .error (.unsupportedRegion type)
  | .region r :: rest =>
    if h : r.dimension = n then
      (collect n rest).map (prepend r.kind (h ▸ r.constraints))
    else .error (.regionDimension r.dimension n)

/-- The least number of rows that no matrix has, not even one without columns: its numbers of
eight bytes are counted in a signed word of 64 bits. -/
def rowLimit : Nat := 0x1000000000000000

/-- Joins regions, of the given dimension or of the first region's. A negative dimension fits
no region. -/
def assemble (dimension : Option Int) (items : List (RegionInput α)) :
    Except Fault ((n : Nat) × ConstraintSet α n) :=
  match dimension, items with
  | some (.ofNat n), [] => if n < rowLimit then .ok ⟨n, empty⟩ else .error .shapeMismatch
  | some (.ofNat n), items => (collect n items).map fun s => ⟨n, s⟩
  | some (.negSucc _), [] => .error .shapeMismatch
  | some d, .region r :: _ => .error (.regionDimension r.dimension d)
  | none, [] => .error .unknownDimension
  | none, .region r :: rest =>
    (collect r.dimension (.region r :: rest)).map fun s => ⟨r.dimension, s⟩
  | _, .other type :: _ => .error (.unsupportedRegion type)

end ConstraintSet

end ActiveSet

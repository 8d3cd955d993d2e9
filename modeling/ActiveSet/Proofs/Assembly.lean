import ActiveSet.Proofs.Numbers
import ActiveSet.Region.Assemble
/-
  Regions as sets of points, and the system that joins them

  A region is read as a set of real points (`Region.Contains`): a box bounds a
  coordinate where its bound is a real number, a linear region compares the
  product of the point and each normal with a bound. `Region.contains_iff` says
  that the constraints of a region are met by exactly its points, and
  `Region.exists_keys` that those of a box stand by coordinate, the lower
  side before the upper one.

  The assembly of several regions is settled by the first value that does not
  fit (`RegionInput.flaw?`), or else joins their constraints in the order of
  the regions. Over an empty list there is nothing to disagree with the
  dimension that is asked for, and yet not every number is a dimension: none
  below zero is, nor one that no matrix has as its number of rows.
-/

namespace ActiveSet

variable {n : Nat}

/-- The real number that a value is; zero for an infinity or a NaN. -/
def Extended.toReal : Extended → ℝ
  | real x => x
  | top | bottom | nan => 0

@[simp] theorem Extended.toReal_real (x : ℝ) : (real x).toReal = x := rfl

/-! ## Constraints -/

namespace Constraint

/-- Whether the numbers of a constraint are real. -/
structure IsReal (c : Constraint Extended n) : Prop where
  normal : Vec.IsReal c.normal
  bound : c.bound.IsReal

/-- The product of the normal and a point. -/
noncomputable def product (c : Constraint Extended n) (x : Vector ℝ n) : ℝ :=
  ∑ i, (c.normal.get i).toReal * x.get i

/-- Whether a point meets the bound. -/
def Met (c : Constraint Extended n) (x : Vector ℝ n) : Prop := c.bound.toReal ≤ c.product x

/-- Whether a point attains the bound. -/
def Attained (c : Constraint Extended n) (x : Vector ℝ n) : Prop := c.product x = c.bound.toReal

/-- Whether a point does what the kind of the constraint demands. -/
def Demands : ConstraintKind → Constraint Extended n → Vector ℝ n → Prop
  | .inequality => Met
  | .equality => Attained

end Constraint

/-! ## Boxes -/

namespace Region

section Box

variable (lower : Vector Extended n) (upper : Option (Vector Extended n))

/-- The bound of a coordinate on its lower side (`false`) or its upper one (`true`). A box
without upper bounds has infinite ones. -/
def limit (key : Fin n ×ₗ Bool) : Extended :=
  match ofLex key with
  | (j, false) => lower.get j
  | (j, true) => match upper with
    | some u => u.get j
    | none => .top

/-- The constraint of one side of a box: `x_j ≥ l`, or `-x_j ≥ -u`. -/
noncomputable def column (key : Fin n ×ₗ Bool) : Constraint Extended n :=
  match ofLex key with
  | (j, false) => ⟨Vec.unit j, limit lower upper key⟩
  | (j, true) => ⟨Vec.neg (Vec.unit j), -limit lower upper key⟩

/-- All sides of a box in their order. -/
def allKeys (n : Nat) : List (Fin n ×ₗ Bool) :=
  (List.finRange n).flatMap fun j => [toLex (j, false), toLex (j, true)]

theorem mem_allKeys (key : Fin n ×ₗ Bool) : key ∈ allKeys n := by
  obtain ⟨j, side⟩ := key
  refine List.mem_flatMap.mpr ⟨j, List.mem_finRange j, ?_⟩
  cases side
  · exact List.mem_cons_self
  · exact List.mem_cons_of_mem _ List.mem_cons_self

theorem pairwise_allKeys (n : Nat) : (allKeys n).Pairwise (· < ·) := by
  refine List.pairwise_flatMap.mpr ⟨fun j _ => ?_, ?_⟩
  · simp [Prod.Lex.toLex_lt_toLex]
  · refine (List.pairwise_lt_finRange n).imp fun {i j} hij => ?_
    simp [Prod.Lex.toLex_lt_toLex, hij]

/-- The constraint of one side, if there is one. -/
noncomputable def side (key : Fin n ×ₗ Bool) : List (Constraint Extended n) :=
  if Scalar.isFinite (limit lower upper key) then [column lower upper key] else []

theorem lowerSide_eq (j : Fin n) : lowerSide lower j = side lower upper (toLex (j, false)) := rfl

theorem upperSide_eq (u : Vector Extended n) (j : Fin n) :
    upperSide u j = side lower (some u) (toLex (j, true)) := by
  have hnormal : (Vector.ofFn fun i : Fin n => if i = j then (-1 : Extended) else 0) =
      Vec.neg (Vec.unit j) := Vec.ext_get fun i => by
    rw [Vec.get_ofFn, Vec.neg, Vector.get_map, Vec.unit, Vec.get_ofFn]
    split
    · rfl
    · exact congrArg Extended.real neg_zero.symm
  rw [upperSide, hnormal]
  rfl

theorem sides_eq_flatMap : sides lower upper = (allKeys n).flatMap (side lower upper) := by
  rw [sides, allKeys, List.flatMap_assoc]
  refine congrArg (List.flatMap · (List.finRange n)) (funext fun j => ?_)
  rw [lowerSide_eq lower upper, List.flatMap_cons, List.flatMap_singleton]
  cases upper with
  | none => rfl
  | some u => exact congrArg _ (upperSide_eq lower u j)

/-- The constraints of a box are those of its real bounds, by coordinate, the lower side before
the upper. -/
theorem exists_keys : ∃ keys : List (Fin n ×ₗ Bool), keys.Pairwise (· < ·) ∧
    (∀ key, key ∈ keys ↔ (limit lower upper key).IsReal) ∧
    sides lower upper = keys.map (column lower upper) := by
  refine ⟨(allKeys n).filter fun key => Scalar.isFinite (limit lower upper key),
    (pairwise_allKeys n).filter _, fun key => ?_, ?_⟩
  · rw [List.mem_filter, Extended.isReal_iff]
    exact and_iff_right (mem_allKeys key)
  · rw [sides_eq_flatMap]
    induction allKeys n with
    | nil => rfl
    | cons key keys ih =>
      rw [List.flatMap_cons, ih, List.filter_cons, side]
      split <;> simp

end Box

/-! ## Regions -/

/-- Whether the numbers of a linear region are real. The bounds of a box need not be. -/
def HasRealData : Region Extended → Prop
  | interval .. => True
  | inequalities cs => ∀ c ∈ cs, c.IsReal
  | equalities cs => ∀ c ∈ cs, c.IsReal

/-- The points of a region. A bound of a box that is infinite or a NaN bounds nothing. -/
def Contains : (r : Region Extended) → Vector ℝ r.dimension → Prop
  | interval lower upper, x =>
    (∀ j l, lower.get j = .real l → l ≤ x.get j) ∧
      ∀ u ∈ upper, ∀ j b, u.get j = .real b → x.get j ≤ b
  | inequalities cs, x => ∀ c ∈ cs, c.Met x
  | equalities cs, x => ∀ c ∈ cs, c.Attained x

theorem product_column {lower : Vector Extended n} {upper : Option (Vector Extended n)}
    (x : Vector ℝ n) (j : Fin n) (upward : Bool) :
    (column lower upper (toLex (j, upward))).product x =
      if upward then -x.get j else x.get j := by
  have hunit (i : Fin n) : ((Vec.unit j : Vector Extended n).get i).toReal =
      if i = j then 1 else 0 := by
    rw [Vec.unit, Vec.get_ofFn]
    split <;> rfl
  cases upward with
  | false =>
    calc _ = ∑ i, ((Vec.unit j : Vector Extended n).get i).toReal * x.get i := rfl
      _ = x.get j := by simp [hunit]
  | true =>
    have hneg (i : Fin n) : ((Vec.neg (Vec.unit j) : Vector Extended n).get i).toReal =
        -((Vec.unit j : Vector Extended n).get i).toReal := by
      rw [Vec.neg, Vector.get_map, Vec.unit, Vec.get_ofFn]
      split <;> rfl
    calc _ = ∑ i, ((Vec.neg (Vec.unit j) : Vector Extended n).get i).toReal * x.get i := rfl
      _ = -x.get j := by simp [hneg, hunit]

theorem isReal_column {lower : Vector Extended n} {upper : Option (Vector Extended n)}
    {key : Fin n ×ₗ Bool} (h : (limit lower upper key).IsReal) :
    (column lower upper key).IsReal := by
  obtain ⟨j, _ | _⟩ := key
  · exact ⟨.unit j, h⟩
  · exact ⟨.neg (.unit j), h.neg⟩

/-- The constraint of a real bound is met where the coordinate keeps to the bound. -/
theorem met_column {lower : Vector Extended n} {upper : Option (Vector Extended n)}
    {x : Vector ℝ n} {j : Fin n} {upward : Bool} {b : ℝ}
    (h : limit lower upper (toLex (j, upward)) = .real b) :
    (column lower upper (toLex (j, upward))).Met x ↔
      if upward then x.get j ≤ b else b ≤ x.get j := by
  rw [Constraint.Met, product_column]
  cases upward with
  | false =>
    show (limit lower upper (toLex (j, false))).toReal ≤ x.get j ↔ b ≤ x.get j
    rw [h, Extended.toReal_real]
  | true =>
    show (-limit lower upper (toLex (j, true))).toReal ≤ -x.get j ↔ x.get j ≤ b
    rw [h, Extended.real_neg, Extended.toReal_real]
    exact neg_le_neg_iff

/-- A point lies in a box where it meets the constraints of the box. -/
theorem contains_interval (lower : Vector Extended n) (upper : Option (Vector Extended n))
    (x : Vector ℝ n) :
    (interval lower upper).Contains x ↔ ∀ c ∈ sides lower upper, c.Met x := by
  obtain ⟨keys, -, hkeys, heq⟩ := exists_keys lower upper
  rw [heq]
  constructor
  · rintro ⟨hlower, hupper⟩ c hc
    obtain ⟨⟨j, upward⟩, hkey, rfl⟩ := List.mem_map.mp hc
    obtain ⟨b, hb⟩ := (hkeys _).mp hkey
    refine (met_column hb).mpr ?_
    cases upward with
    | false => exact hlower j b hb
    | true =>
      cases upper with
      | none => cases hb
      | some u => exact hupper u rfl j b hb
  · intro h
    have hmet (j : Fin n) (upward : Bool) (b : ℝ)
        (hb : limit lower upper (toLex (j, upward)) = .real b) :=
      (met_column hb).mp (h _ (List.mem_map_of_mem ((hkeys _).mpr ⟨b, hb⟩)))
    refine ⟨fun j l hl => hmet j false l hl, fun u hu j b hb => ?_⟩
    obtain rfl := Option.mem_def.mp hu
    exact hmet j true b hb

/-- The points of a region are those that do what its constraints demand. -/
theorem contains_iff (r : Region Extended) (x : Vector ℝ r.dimension) :
    r.Contains x ↔ ∀ c ∈ r.constraints, c.Demands r.kind x := by
  cases r with
  | interval lower upper => exact contains_interval lower upper x
  | inequalities cs => exact Iff.rfl
  | equalities cs => exact Iff.rfl

/-- The constraints of a region with real data are real, whatever the bounds of a box are. -/
theorem isReal_of_mem_constraints {r : Region Extended} (h : r.HasRealData)
    {c : Constraint Extended r.dimension} (hc : c ∈ r.constraints) : c.IsReal := by
  cases r with
  | interval lower upper =>
    obtain ⟨keys, -, hkeys, heq⟩ := exists_keys lower upper
    obtain ⟨key, hkey, rfl⟩ := List.mem_map.mp (heq ▸ hc : c ∈ keys.map (column lower upper))
    exact isReal_column ((hkeys key).mp hkey)
  | inequalities cs => exact h c hc
  | equalities cs => exact h c hc

/-- Whether a point of some dimension lies in the region. -/
def Holds (r : Region Extended) (x : Vector ℝ n) : Prop :=
  ∃ h : r.dimension = n, r.Contains (x.cast h.symm)

theorem holds_iff_contains (r : Region Extended) (x : Vector ℝ r.dimension) :
    r.Holds x ↔ r.Contains x := ⟨fun ⟨_, hr⟩ => hr, fun hr => ⟨rfl, hr⟩⟩

end Region

/-! ## Joining regions -/

namespace RegionInput

section Join

variable {α : Type} [Scalar α]

/-- What is wrong with a value where a region of a dimension is wanted, if anything is. -/
def flaw? (dimension : Int) : RegionInput α → Option Fault
  | other type => some (.unsupportedRegion type)
  | region r =>
    if (r.dimension : Int) = dimension then none
    else some (.regionDimension r.dimension dimension)

/-- What a region adds to the constraints of one kind. -/
def columns (kind : ConstraintKind) (n : Nat) : RegionInput α → List (Constraint α n)
  | other _ => []
  | region r =>
    if h : r.dimension = n then (if r.kind = kind then h ▸ r.constraints else []) else []

omit [Scalar α] in
theorem flaw?_of_dimension {r : Region α} {n : Nat} (h : r.dimension = n) :
    (region r).flaw? n = none := if_pos (congrArg Nat.cast h)

omit [Scalar α] in
theorem flaw?_of_dimension_ne {r : Region α} {d : Int} (h : (r.dimension : Int) ≠ d) :
    (region r).flaw? d = some (.regionDimension r.dimension d) := if_neg h

omit [Scalar α] in
theorem exists_region {n : Nat} {item : RegionInput α} (h : item.flaw? n = none) :
    ∃ r : Region α, item = region r ∧ r.dimension = n := by
  cases item with
  | other type => cases h
  | region r =>
    rw [flaw?] at h
    split at h
    · next hdim => exact ⟨r, rfl, Int.natCast_inj.mp hdim⟩
    · cases h

end Join

end RegionInput

namespace ConstraintSet

open RegionInput

section Join

variable {α : Type} [Scalar α]

/-- Two systems as one, the constraints of the first in front. -/
def append (s t : ConstraintSet α n) : ConstraintSet α n where
  inequalities := s.inequalities ++ t.inequalities
  equalities := s.equalities ++ t.equalities

/-- The system of the constraints of all regions, in their order. -/
def joined (n : Nat) (items : List (RegionInput α)) : ConstraintSet α n where
  inequalities := items.flatMap (columns .inequality n)
  equalities := items.flatMap (columns .equality n)

theorem joined_append (items others : List (RegionInput α)) :
    joined n (items ++ others) = (joined n items).append (joined n others) := by
  rw [joined, List.flatMap_append, List.flatMap_append]
  rfl

theorem prepend_joined {r : Region α} (h : r.dimension = n) (items : List (RegionInput α)) :
    (joined n items).prepend r.kind (h ▸ r.constraints) = joined n (.region r :: items) := by
  subst h
  cases hkind : r.kind <;> simp [prepend, joined, columns, hkind]

/-- Regions are joined up to the first value that does not fit. -/
theorem collect_eq (n : Nat) (items : List (RegionInput α)) :
    collect n items = match items.findSome? (flaw? n) with
      | some fault => .error fault
      | none => .ok (joined n items) := by
  induction items with
  | nil => rfl
  | cons item items ih =>
    cases item with
    | other type => rfl
    | region r =>
      rw [collect, List.findSome?_cons]
      by_cases h : r.dimension = n
      · rw [dif_pos h, flaw?_of_dimension h, ih, ← prepend_joined h]
        cases items.findSome? (flaw? n) <;> rfl
      · rw [dif_neg h, flaw?_of_dimension_ne (mt Int.natCast_inj.mp h)]

/-- The dimension that regions have to have: the given one, or else that of the first region. -/
def target (dimension : Option Int) (items : List (RegionInput α)) : Int :=
  match dimension, items with
  | some d, _ => d
  | none, .region r :: _ => r.dimension
  | none, _ => 0

/-- What an assembly of at least one value gives. -/
theorem assemble_cons (dimension : Option Int) (item : RegionInput α)
    (items : List (RegionInput α)) :
    assemble dimension (item :: items) =
      match (item :: items).findSome? (flaw? (target dimension (item :: items))) with
      | some fault => .error fault
      | none => .ok ⟨(target dimension (item :: items)).toNat, joined _ (item :: items)⟩ := by
  have hcollect (n : Nat) : (collect n (item :: items)).map (fun s => Sigma.mk n s) =
      match (item :: items).findSome? (flaw? n) with
      | some fault => .error fault
      | none => .ok ⟨n, joined n (item :: items)⟩ := by
    rw [collect_eq]
    cases (item :: items).findSome? (flaw? n) <;> rfl
  match dimension, item with
  | some (.ofNat n), _ => exact hcollect n
  | some (.negSucc k), .region r =>
    rw [target, List.findSome?_cons,
      flaw?_of_dimension_ne (fun h => absurd h (by simp))]
    rfl
  | some (.negSucc _), .other _ => rfl
  | none, .region r => exact hcollect r.dimension
  | none, .other _ => rfl

theorem assemble_nil {d : Int} (hd : 0 ≤ d) (hlimit : d < rowLimit) :
    assemble (some d) ([] : List (RegionInput α)) = .ok ⟨d.toNat, joined _ []⟩ := by
  obtain ⟨k, rfl⟩ := Int.eq_ofNat_of_zero_le hd
  exact if_pos (Int.ofNat_lt.mp hlimit)

theorem assemble_nil_eq_error {d : Int} (h : d < 0 ∨ rowLimit ≤ d) :
    assemble (some d) ([] : List (RegionInput α)) = .error .shapeMismatch := by
  match d with
  | .ofNat k =>
    refine if_neg fun hk => ?_
    rcases h with h | h
    · exact absurd h (by simp)
    · exact absurd (Int.ofNat_le.mp h) (by omega)
  | .negSucc k => rfl

/-- An assembly succeeds where all values fit; over an empty list, where a dimension is given
that a matrix can have. -/
theorem assemble_eq_ok_iff {dimension : Option Int} {items : List (RegionInput α)}
    {s : ConstraintSet α n} : assemble dimension items = .ok ⟨n, s⟩ ↔
      target dimension items = n ∧ items.findSome? (flaw? n) = none ∧ s = joined n items ∧
        (items = [] → dimension = some ↑n ∧ n < rowLimit) := by
  cases items with
  | nil =>
    cases dimension with
    | none =>
      constructor
      · intro h
        cases h
      · rintro ⟨-, -, -, h⟩
        cases (h rfl).1
    | some d =>
      by_cases hd : 0 ≤ d ∧ d < rowLimit
      · rw [assemble_nil hd.1 hd.2]
        constructor
        · intro h
          cases h
          have hnat : (d.toNat : Int) = d := Int.toNat_of_nonneg hd.1
          exact ⟨hnat.symm, rfl, rfl, fun _ => ⟨congrArg some hnat.symm, by omega⟩⟩
        · rintro ⟨rfl, -, rfl, -⟩
          rfl
      · rw [assemble_nil_eq_error (by omega)]
        constructor
        · intro h
          cases h
        · rintro ⟨-, -, -, h⟩
          obtain ⟨heq, hlimit⟩ := h rfl
          cases heq
          omega
  | cons item items =>
    rw [assemble_cons]
    constructor
    · intro h
      split at h
      · cases h
      · next hfits =>
        have hn : target dimension (item :: items) = n := by
          cases item with
          | other type => cases hfits
          | region r =>
            rw [List.findSome?_cons] at hfits
            by_cases hdim : (r.dimension : Int) = target dimension (.region r :: items)
            · have hnat := (Sigma.mk.inj (Except.ok.inj h)).1
              omega
            · rw [flaw?_of_dimension_ne hdim] at hfits
              cases hfits
        rw [hn] at h hfits
        cases h
        exact ⟨hn, hfits, rfl, fun h => by cases h⟩
    · rintro ⟨hn, hfits, rfl, -⟩
      rw [hn, hfits]
      rfl

theorem assemble_append {dimension dimension' : Option Int} {items others : List (RegionInput α)}
    {s t : ConstraintSet α n} (hs : assemble dimension items = .ok ⟨n, s⟩)
    (ht : assemble dimension' others = .ok ⟨n, t⟩) :
    assemble dimension (items ++ others) = .ok ⟨n, s.append t⟩ := by
  obtain ⟨hn, hfits, rfl, hempty⟩ := assemble_eq_ok_iff.mp hs
  obtain ⟨-, hfits', rfl, -⟩ := assemble_eq_ok_iff.mp ht
  refine assemble_eq_ok_iff.mpr ⟨?_, ?_, (joined_append items others).symm, fun h => ?_⟩
  · cases items with
    | nil =>
      obtain ⟨rfl, -⟩ := hempty rfl
      rfl
    | cons item items =>
      rw [← hn]
      cases dimension with
      | some d => rfl
      | none => cases item <;> rfl
  · rw [List.findSome?_append, hfits, hfits']
    rfl
  · exact hempty (List.append_eq_nil_iff.mp h).1

end Join

/-- Whether a point meets all inequalities and attains all equalities. -/
def Feasible (s : ConstraintSet Extended n) (x : Vector ℝ n) : Prop :=
  (∀ c ∈ s.inequalities, c.Met x) ∧ ∀ c ∈ s.equalities, c.Attained x

/-- Whether all numbers of a system are real. -/
def IsReal (s : ConstraintSet Extended n) : Prop :=
  (∀ c ∈ s.inequalities, c.IsReal) ∧ ∀ c ∈ s.equalities, c.IsReal

theorem mem_columns {kind : ConstraintKind} {item : RegionInput Extended}
    {c : Constraint Extended n} : c ∈ item.columns kind n ↔
      ∃ (r : Region Extended) (h : r.dimension = n), item = .region r ∧ r.kind = kind ∧
        c ∈ (h ▸ r.constraints : List (Constraint Extended n)) := by
  cases item with
  | other type => simp [columns]
  | region r =>
    rw [columns]
    constructor
    · intro hc
      split at hc
      · next h =>
        split at hc
        · next hkind => exact ⟨r, h, rfl, hkind, hc⟩
        · cases hc
      · cases hc
    · rintro ⟨r, h, hr, hkind, hc⟩
      cases hr
      rw [dif_pos h, if_pos hkind]
      exact hc

/-- The points of one region, as those that do what its columns in a system demand. -/
theorem holds_iff {r : Region Extended} (h : r.dimension = n) (x : Vector ℝ n) :
    r.Holds x ↔ ∀ kind, ∀ c ∈ (RegionInput.region r).columns kind n, c.Demands kind x := by
  subst h
  rw [Region.holds_iff_contains, Region.contains_iff]
  constructor
  · intro hr kind c hc
    obtain ⟨_, _, heq, rfl, hmem⟩ := mem_columns.mp hc
    cases heq
    exact hr c hmem
  · exact fun hr c hc => hr _ c (mem_columns.mpr ⟨r, rfl, rfl, rfl, hc⟩)

theorem feasible_joined_iff {items : List (RegionInput Extended)}
    (h : items.findSome? (flaw? n) = none) (x : Vector ℝ n) :
    (joined n items).Feasible x ↔ ∀ r, RegionInput.region r ∈ items → r.Holds x := by
  rw [List.findSome?_eq_none_iff] at h
  have hkinds : (joined n items).Feasible x ↔
      ∀ kind, ∀ item ∈ items, ∀ c ∈ item.columns kind n, c.Demands kind x := by
    constructor
    · rintro ⟨hmet, hattained⟩ kind item hitem c hc
      cases kind with
      | inequality => exact hmet c (List.mem_flatMap_of_mem hitem hc)
      | equality => exact hattained c (List.mem_flatMap_of_mem hitem hc)
    · intro hall
      refine ⟨fun c hc => ?_, fun c hc => ?_⟩ <;>
        obtain ⟨item, hitem, hc⟩ := List.mem_flatMap.mp hc
      · exact hall .inequality item hitem c hc
      · exact hall .equality item hitem c hc
  rw [hkinds]
  constructor
  · intro hall r hr
    obtain ⟨_, heq, hdim⟩ := exists_region (h _ hr)
    cases heq
    exact (holds_iff hdim x).mpr fun kind => hall kind _ hr
  · intro hall kind item hitem c hc
    obtain ⟨r, rfl, hdim⟩ := exists_region (h _ hitem)
    exact (holds_iff hdim x).mp (hall r hitem) kind c hc

theorem isReal_joined {items : List (RegionInput Extended)}
    (h : ∀ r, RegionInput.region r ∈ items → r.HasRealData) : (joined n items).IsReal := by
  have hall (kind : ConstraintKind) (c : Constraint Extended n)
      (hc : c ∈ items.flatMap (columns kind n)) : c.IsReal := by
    obtain ⟨item, hitem, hc⟩ := List.mem_flatMap.mp hc
    obtain ⟨r, rfl, rfl, -, hc⟩ := mem_columns.mp hc
    exact Region.isReal_of_mem_constraints (h r hitem) hc
  exact ⟨hall .inequality, hall .equality⟩

/-- What an assembly gives, for every dimension that is asked for and every list of values. The
first value that does not fit ends it, with the fault of that value. Without values it needs a
dimension, and one that a matrix can have. Otherwise it gives the columns of all regions in their
order, those of a box by coordinate and the lower side first, and the points that are feasible
for them are those of all regions. What is assembled from two lists is joined by assembling them
as one. -/
theorem outcome_of_assemble (dimension : Option Int) (items : List (RegionInput Extended)) :
    (∀ fault, items.findSome? (flaw? (target dimension items)) = some fault →
      assemble dimension items = .error fault) ∧
    (dimension = none → items = [] → assemble dimension items = .error .unknownDimension) ∧
    (∀ d, dimension = some d → items = [] → d < 0 ∨ rowLimit ≤ d →
      assemble dimension items = .error .shapeMismatch) ∧
    (items.findSome? (flaw? (target dimension items)) = none →
      (items = [] → ∃ d, dimension = some d ∧ 0 ≤ d ∧ d < rowLimit) →
      ∃ (n : Nat) (s : ConstraintSet Extended n), target dimension items = n ∧
        assemble dimension items = .ok ⟨n, s⟩ ∧
        s.inequalities = items.flatMap (columns .inequality n) ∧
        s.equalities = items.flatMap (columns .equality n) ∧
        ((∀ r, RegionInput.region r ∈ items → r.HasRealData) → s.IsReal ∧
          ∀ x : Vector ℝ n, s.Feasible x ↔ ∀ r, RegionInput.region r ∈ items → r.Holds x) ∧
        ∀ dimension' others (t : ConstraintSet Extended n),
          assemble dimension' others = .ok ⟨n, t⟩ →
          assemble dimension (items ++ others) = .ok ⟨n, s.append t⟩) ∧
    ∀ (k : Nat) (lower : Vector Extended k) (upper : Option (Vector Extended k)),
      RegionInput.region (.interval lower upper) ∈ items →
      ∃ keys : List (Fin k ×ₗ Bool), keys.Pairwise (· < ·) ∧
        (∀ key, key ∈ keys ↔ (Region.limit lower upper key).IsReal) ∧
        (Region.interval lower upper).constraints = keys.map (Region.column lower upper) := by
  refine ⟨fun fault h => ?_, ?_, ?_, fun hfits hempty => ?_,
    fun k lower upper _ => Region.exists_keys lower upper⟩
  · cases items with
    | nil => cases h
    | cons item items => rw [assemble_cons, h]
  · rintro rfl rfl
    rfl
  · rintro d rfl rfl hd
    exact assemble_nil_eq_error hd
  · obtain ⟨n, hn⟩ : ∃ n : Nat, target dimension items = n := by
      cases items with
      | nil =>
        obtain ⟨d, rfl, hd, -⟩ := hempty rfl
        exact Int.eq_ofNat_of_zero_le hd
      | cons item items =>
        cases item with
        | other type => cases hfits
        | region r =>
          refine ⟨r.dimension, by_contra fun hdim => ?_⟩
          rw [List.findSome?_cons, flaw?_of_dimension_ne (Ne.symm hdim)] at hfits
          cases hfits
    rw [hn] at hfits
    have hok : assemble dimension items = .ok ⟨n, joined n items⟩ := by
      refine assemble_eq_ok_iff.mpr ⟨hn, hfits, rfl, fun hnil => ?_⟩
      obtain ⟨d, rfl, -, hlimit⟩ := hempty hnil
      have hd : d = n := hn
      exact ⟨congrArg some hd, by omega⟩
    exact ⟨n, joined n items, hn, hok, rfl, rfl,
      fun hreal => ⟨isReal_joined hreal, feasible_joined_iff hfits⟩,
      fun _ _ _ ht => assemble_append hok ht⟩

/-- A line, a box with one side for each coordinate, and a half-plane, joined without a
dimension. -/
theorem outcome_of_assemble_mixed :
    let line : Region Extended := .equalities [⟨#v[.real 1, .real 1], .real 3⟩]
    let box : Region Extended := .interval #v[.real 0, .nan] (some #v[.top, .real 2])
    let half : Region Extended := .inequalities [⟨#v[.real 1, .real 0], .real 1⟩]
    let items : List (RegionInput Extended) := [.region line, .region box, .region half]
    assemble none (items ++ [.other "list", .other "int"]) = .error (.unsupportedRegion "list") ∧
      assemble (some (-1)) ([] : List (RegionInput Extended)) = .error .shapeMismatch ∧
      ∃ s : ConstraintSet Extended 2, assemble none items = .ok ⟨2, s⟩ ∧
        ∀ x : Vector ℝ 2, s.Feasible x ↔
          x.get 0 + x.get 1 = 3 ∧ (0 ≤ x.get 0 ∧ x.get 1 ≤ 2) ∧ 1 ≤ x.get 0 := by
  intro line box half items
  refine ⟨(outcome_of_assemble _ _).1 _ rfl,
    (outcome_of_assemble (some (-1)) []).2.2.1 _ rfl rfl (.inl (by decide)), ?_⟩
  obtain ⟨n, s, hn, hok, -, -, hfeasible, -⟩ :=
    (outcome_of_assemble none items).2.2.2.1 rfl fun h => absurd h (List.cons_ne_nil _ _)
  obtain rfl : 2 = n := Int.natCast_inj.mp hn
  have hreal : ∀ r, RegionInput.region r ∈ items → r.HasRealData := by
    have hnormal (a b c : ℝ) : Constraint.IsReal ⟨#v[.real a, .real b], .real c⟩ :=
      ⟨Fin.forall_fin_two.mpr ⟨⟨a, rfl⟩, ⟨b, rfl⟩⟩, ⟨c, rfl⟩⟩
    simp [items, line, box, half, Region.HasRealData, hnormal]
  refine ⟨s, hok, fun x => ((hfeasible hreal).2 x).trans ?_⟩
  have hline : line.Holds x ↔ x.get 0 + x.get 1 = 3 :=
    (Region.holds_iff_contains line x).trans (by
      simp [line, Region.Contains, Constraint.Attained, Constraint.product, Fin.sum_univ_two])
  have hbox : box.Holds x ↔ 0 ≤ x.get 0 ∧ x.get 1 ≤ 2 :=
    (Region.holds_iff_contains box x).trans (by
      constructor
      · rintro ⟨hlower, hupper⟩
        exact ⟨hlower 0 0 rfl, hupper _ rfl 1 2 rfl⟩
      · rintro ⟨hlower, hupper⟩
        refine ⟨Fin.forall_fin_two.mpr ⟨fun l hl => ?_, fun l hl => ?_⟩, fun u hu => ?_⟩
        · cases hl
          exact hlower
        · cases hl
        · cases hu
          refine Fin.forall_fin_two.mpr ⟨fun b hb => ?_, fun b hb => ?_⟩
          · cases hb
          · cases hb
            exact hupper)
  have hhalf : half.Holds x ↔ 1 ≤ x.get 0 :=
    (Region.holds_iff_contains half x).trans (by
      simp [half, Region.Contains, Constraint.Met, Constraint.product, Fin.sum_univ_two])
  simp [items, hline, hbox, hhalf]

/-- An assembly may fail where all values fit and a dimension is known: no matrix has as many
rows as this one. -/
theorem exists_unassembled : ¬ ∀ (dimension : Option Int) (items : List (RegionInput Extended)),
    (∃ fault, items.findSome? (flaw? (target dimension items)) = some fault) ∨
      (dimension = none ∧ items = []) ∨
      ∃ (n : Nat) (s : ConstraintSet Extended n), assemble dimension items = .ok ⟨n, s⟩ := by
  intro h
  rcases h (some rowLimit) [] with ⟨fault, hfault⟩ | ⟨hnone, -⟩ | ⟨n, s, hok⟩
  · cases hfault
  · cases hnone
  · rw [assemble_nil_eq_error (.inr le_rfl)] at hok
    cases hok

end ConstraintSet

end ActiveSet

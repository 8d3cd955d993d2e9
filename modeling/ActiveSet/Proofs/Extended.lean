import ActiveSet.Proofs.Exact
/-
  The real numbers with infinities and a NaN — what data may hold

  A double is a real number, an infinity or a NaN. `Extended` has all of these
  and rounds nothing, so what goes wrong over it goes wrong for want of a
  number, and not for want of precision. The operations are those of the
  standard for floating-point arithmetic with one zero instead of two: a
  difference of infinities, a product of zero and an infinity, and the
  quotients of two zeros and of two infinities are NaN, and a comparison with
  a NaN is false.

  On real numbers all operations are those of `ℝ`, with two exceptions: the
  root of a negative number is a NaN, and a division by zero gives no real
  number.
-/

namespace ActiveSet

/-- A real number, an infinity or a NaN. -/
inductive Extended where
  | real (x : ℝ)
  | top
  | bottom
  | nan

namespace Extended

/-- The infinity of the given sign; none of either sign is a NaN. -/
def infinite : SignType → Extended
  | .pos => top
  | .neg => bottom
  | .zero => nan

/-- The sign of a value; a NaN has none. -/
noncomputable def sign : Extended → SignType
  | real x => SignType.sign x
  | top => 1
  | bottom => -1
  | nan => 0

/-- The value with its sign changed. -/
def opposite : Extended → Extended
  | real x => real (-x)
  | top => bottom
  | bottom => top
  | nan => nan

/-- The sum; infinities of different signs have none. -/
def sum : Extended → Extended → Extended
  | real x, real y => real (x + y)
  | nan, _ | _, nan | top, bottom | bottom, top => nan
  | top, _ | _, top => top
  | bottom, _ | _, bottom => bottom

/-- The product; an infinity and a zero have none. -/
noncomputable def product : Extended → Extended → Extended
  | real x, real y => real (x * y)
  | x, y => infinite (x.sign * y.sign)

/-- The quotient. A divisor that is zero counts as positive. -/
noncomputable def quotient : Extended → Extended → Extended
  | real x, real y => if y = 0 then infinite (SignType.sign x) else real (x / y)
  | real _, top | real _, bottom => real 0
  | top, real y => if y < 0 then bottom else top
  | bottom, real y => if y < 0 then top else bottom
  | _, _ => nan

end Extended

open Extended in
noncomputable instance : Scalar Extended where
  add := sum
  sub x y := sum x y.opposite
  mul := product
  div := quotient
  neg := opposite
  zero := real 0
  one := real 1
  natCast k := real k
  sqrt
    | real x => if x < 0 then nan else real (Real.sqrt x)
    | top => top
    | bottom | nan => nan
  hypot
    | real x, real y => real (Real.sqrt (x * x + y * y))
    | top, _ | bottom, _ | _, top | _, bottom => top
    | nan, _ | _, nan => nan
  abs
    | real x => real |x|
    | top | bottom => top
    | nan => nan
  lt
    | real x, real y => decide (x < y)
    | real _, top | bottom, real _ | bottom, top => true
    | _, _ => false
  le
    | real x, real y => decide (x ≤ y)
    | real _, top | bottom, real _ | bottom, top | top, top | bottom, bottom => true
    | _, _ => false
  isFinite
    | real _ => true
    | _ => false
  isNaN
    | nan => true
    | _ => false
  isBelowTop
    | real _ | bottom => true
    | top | nan => false

namespace Extended

section Real

variable (x y : ℝ)

theorem real_add : real x + real y = real (x + y) := rfl

theorem real_sub : real x - real y = real (x - y) := congrArg real (sub_eq_add_neg x y).symm

theorem real_mul : real x * real y = real (x * y) := rfl

theorem real_neg : -real x = real (-x) := rfl

theorem real_zero : (0 : Extended) = real 0 := rfl

theorem real_one : (1 : Extended) = real 1 := rfl

theorem real_ne_top : real x ≠ top := by
  intro h
  cases h

theorem real_ne_nan : real x ≠ nan := by
  intro h
  cases h

theorem real_div {y : ℝ} (hy : y ≠ 0) : real x / real y = real (x / y) := if_neg hy

theorem sqrt_real {x : ℝ} (hx : 0 ≤ x) : Scalar.sqrt (real x) = real (Real.sqrt x) :=
  if_neg (not_lt.mpr hx)

theorem hypot_real : Scalar.hypot (real x) (real y) = real (Scalar.hypot x y) := rfl

@[simp] theorem abs_real : Scalar.abs (real x) = real |x| := rfl

@[simp] theorem lt_real : Scalar.lt (real x) (real y) = decide (x < y) := rfl

@[simp] theorem le_real : Scalar.le (real x) (real y) = decide (x ≤ y) := rfl

theorem epsilon_real : (Scalar.epsilon : Extended) = real Scalar.epsilon :=
  real_div _ (Nat.cast_ne_zero.mpr (by decide))

@[simp] theorem maximum_real : Scalar.maximum (real x) (real y) = real (max x y) := by
  show (if decide (x < y) = true then real y else real x) = _
  rcases lt_or_ge x y with h | h
  · simp [h, h.le]
  · simp [h, not_lt.mpr h]

@[simp] theorem minimum_real : Scalar.minimum (real x) (real y) = real (min x y) := by
  show (if decide (y < x) = true then real y else real x) = _
  rcases lt_or_ge y x with h | h
  · simp [h, h.le]
  · simp [h, not_lt.mpr h]

end Real

/-! ## NaN -/

@[simp] theorem isNaN_iff {x : Extended} : Scalar.isNaN x = true ↔ x = nan := by
  cases x <;> simp [Scalar.isNaN]

theorem nan_sub (x : Extended) : nan - x = nan := by cases x <;> rfl

theorem sub_nan (x : Extended) : x - nan = nan := by cases x <;> rfl

theorem nan_add (x : Extended) : nan + x = nan := by cases x <;> rfl

theorem add_nan (x : Extended) : x + nan = nan := by cases x <;> rfl

theorem nan_mul (x : Extended) : nan * x = nan := by
  show infinite (0 * x.sign) = nan
  rw [zero_mul]
  rfl

theorem add_ne_top {x y : Extended} (hx : x ≠ top) (hy : y ≠ top) : x + y ≠ top := by
  cases x with
  | top => exact absurd rfl hx
  | real _ | bottom | nan =>
    cases y with
    | top => exact absurd rfl hy
    | real _ | bottom | nan =>
      intro h
      cases h

/-- Without a positive infinity there is no difference of infinities. -/
theorem add_eq_nan {x y : Extended} (hx : x ≠ top) (hy : y ≠ top) :
    x + y = nan ↔ x = nan ∨ y = nan := by
  cases x with
  | top => exact absurd rfl hx
  | real _ | bottom | nan =>
    cases y with
    | top => exact absurd rfl hy
    | real _ | bottom | nan => simp [HAdd.hAdd, Add.add, Extended.sum]

theorem abs_eq_nan {x : Extended} : Scalar.abs x = nan ↔ x = nan := by
  cases x <;> simp [Scalar.abs]

theorem maximum_eq_nan {x y : Extended} : Scalar.maximum x y = nan ↔ x = nan ∨ y = nan := by
  cases x <;> cases y <;> simp [Scalar.maximum, Scalar.larger, Scalar.isNaN, Scalar.lt]
  split <;> simp

theorem minimum_eq_nan {x y : Extended} : Scalar.minimum x y = nan ↔ x = nan ∨ y = nan := by
  cases x <;> cases y <;> simp [Scalar.minimum, Scalar.smaller, Scalar.isNaN, Scalar.lt]
  split <;> simp

end Extended

end ActiveSet

/-
  Scalars — the numbers that a solve computes with

  Every algorithm of this library is written once, over a type with the four
  operations, a square root and decided comparisons. No law is assumed: the
  same text runs in double precision, where sums round and comparisons with a
  NaN are false, and reads as textbook mathematics over the reals.

  The derived quantities below (`half`, `epsilon`, `larger`, `smaller`,
  `maximum`, `minimum`) differ in one point that results depend on: `larger`
  and `smaller` keep their first argument unless a comparison says otherwise,
  so a NaN survives in the first place only, while `maximum` and `minimum`
  give NaN as soon as either argument is one.
-/

namespace ActiveSet

/-- The operations and decided comparisons of a number type; no law is assumed of them. -/
class Scalar (α : Type) extends
    Add α, Sub α, Mul α, Div α, Neg α, Zero α, One α, NatCast α where
  /-- The square root. -/
  sqrt : α → α
  /-- The length of the vector with the two given components. -/
  hypot : α → α → α
  /-- The absolute value. -/
  abs : α → α
  /-- Whether the first number is smaller; false beside a NaN. -/
  lt : α → α → Bool
  /-- Whether the first number is at most the second; false beside a NaN. -/
  le : α → α → Bool
  /-- Whether the number is neither infinite nor a NaN. -/
  isFinite : α → Bool
  /-- Whether the value is no number at all. -/
  isNaN : α → Bool
  /-- Whether the number lies below positive infinity; false for a NaN. -/
  isBelowTop : α → Bool

namespace Scalar

variable {α : Type} [Scalar α]

/-- One half. -/
def half : α := 1 / (1 + 1)

/-- The distance from one to the next larger double, 2^-52: the threshold of every
test for a negligible number. -/
def epsilon : α := 1 / ((4503599627370496 : Nat) : α)

/-- Whether the number is zero, of either sign. -/
def isZero (x : α) : Bool := le x 0 && le 0 x

/-- The first number unless the second is greater. -/
def larger (x y : α) : α := if lt x y then y else x

/-- The first number unless the second is smaller. -/
def smaller (x y : α) : α := if lt y x then y else x

/-- The greater number; a NaN on either side wins. -/
def maximum (x y : α) : α := if isNaN x then x else if isNaN y then y else larger x y

/-- The smaller number; a NaN on either side wins. -/
def minimum (x y : α) : α := if isNaN x then x else if isNaN y then y else smaller x y

end Scalar

end ActiveSet

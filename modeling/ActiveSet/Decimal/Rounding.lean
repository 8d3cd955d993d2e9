/-
  Rounding an exact value to a decimal

  A double is a whole number times a power of two, so it is an exact quotient
  of natural numbers. Everything here is integer arithmetic on such quotients:
  the exponent of the leading decimal digit, and the nearest multiple of a
  power of ten, where a tie goes to the even multiple.
-/

namespace ActiveSet

namespace Decimal

/-- The whole number nearest to `num / den`; a tie goes to the even one. -/
def roundDiv (num den : Nat) : Nat :=
  let q := num / den
  let twice := 2 * (num % den)
  if den < twice || (twice == den && q % 2 == 1) then q + 1 else q

/-- An exact value that is not negative. -/
structure Magnitude where
  num : Nat
  den : Nat

namespace Magnitude

/-- The value `significand · 2^exponent`. -/
def ofBinary (significand : Nat) (exponent : Int) : Magnitude :=
  if 0 ≤ exponent then ⟨significand * Nat.pow 2 exponent.toNat, 1⟩
  else ⟨significand, Nat.pow 2 (-exponent).toNat⟩

/-- The value's nearest multiple of `10^k`, as a multiple. -/
def roundTo (x : Magnitude) (k : Int) : Nat :=
  if 0 ≤ k then roundDiv x.num (x.den * Nat.pow 10 k.toNat)
  else roundDiv (x.num * Nat.pow 10 (-k).toNat) x.den

/-- Whether the value is at least `10^k`. -/
def reaches (x : Magnitude) (k : Int) : Bool :=
  if 0 ≤ k then x.den * Nat.pow 10 k.toNat ≤ x.num else x.den ≤ x.num * Nat.pow 10 (-k).toNat

/-- The exponent of the leading decimal digit of a positive value. The quotient of two numbers
of `a` and `b` digits lies strictly between `10^(a-b-1)` and `10^(a-b+1)`, so one comparison
decides. -/
def leadingExponent (x : Magnitude) : Int :=
  let estimate : Int := (Nat.toDigits 10 x.num).length - (Nat.toDigits 10 x.den).length
  if x.reaches estimate then estimate else estimate - 1

end Magnitude

end Decimal

end ActiveSet

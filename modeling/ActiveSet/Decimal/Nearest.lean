import ActiveSet.Decimal.Rounding
import ActiveSet.Decimal.Binary64
/-
  The nearest double

  Where a number is written in decimal, or is too long for a double, the
  double nearest to it stands for it; a tie goes to the one with the even
  significand. `nearestBits` finds it in exact arithmetic: the leading bit
  fixes the unit of the last place, the value is rounded to a multiple of
  that unit, and the multiple is the pattern but for an offset.
-/

namespace ActiveSet

namespace Decimal

namespace Magnitude

/-- The value `significand · 10^exponent`. -/
def ofDecimal (significand : Nat) (exponent : Int) : Magnitude :=
  if 0 ≤ exponent then ⟨significand * Nat.pow 10 exponent.toNat, 1⟩
  else ⟨significand, Nat.pow 10 (-exponent).toNat⟩

/-- The value in units of `2^k`. -/
def inUnits (x : Magnitude) (k : Int) : Magnitude :=
  if 0 ≤ k then ⟨x.num, x.den * Nat.pow 2 k.toNat⟩ else ⟨x.num * Nat.pow 2 (-k).toNat, x.den⟩

/-- The exponent of the leading bit of a positive value. The quotient of two numbers with
leading bits `a` and `b` lies strictly between `2^(a-b-1)` and `2^(a-b+1)`, so one comparison
decides. -/
def leadingBit (x : Magnitude) : Int :=
  let estimate : Int := (x.num.log2 : Int) - x.den.log2
  let scaled := x.inUnits estimate
  if scaled.den ≤ scaled.num then estimate else estimate - 1

end Magnitude

/-- The bit pattern of positive infinity; the patterns below it are the finite doubles, in
order. -/
def infinityBits : Nat := 0x7FF0000000000000

/-- The bit pattern of the double nearest to a value. The least unit is `2^-1074`. A unit greater
by a factor of two adds one to the exponent in the pattern, and a significand with its leading
bit adds one more, so the offset is the same with and without that bit, and a significand that
rounds up to the next power of two needs no care. Past the greatest double lies infinity. -/
def nearestBits (x : Magnitude) : Nat :=
  if x.num = 0 then 0
  else
    let unit := max (x.leadingBit - 52) (-1074)
    let scaled := x.inUnits unit
    min infinityBits
      ((unit + 1074).toNat * 0x10000000000000 + roundDiv scaled.num scaled.den)

/-- The double nearest to a value with a sign. -/
def nearest (negative : Bool) (x : Magnitude) : Float :=
  Float.ofBits (UInt64.ofNat (nearestBits x + if negative then 0x8000000000000000 else 0))

/-- The value of the double nearest to a value, if that is finite. -/
def Magnitude.rounded? (x : Magnitude) : Option Magnitude :=
  match Binary64.ofBits (UInt64.ofNat (nearestBits x)) with
  | .finite _ significand exponent => some (Magnitude.ofBinary significand exponent)
  | _ => none

/-- The double nearest to `significand · 10^exponent`. From `10^310` on that is infinity and
below `10^-324` zero, so no greater power is formed. -/
def ofDecimal (negative : Bool) (significand : Nat) (exponent : Int) : Float :=
  let past : Int := (Nat.toDigits 10 significand).length + exponent
  if significand = 0 ∨ past < -324 then nearest negative ⟨0, 1⟩
  else if 310 < past then nearest negative (Magnitude.ofDecimal 1 310)
  else nearest negative (Magnitude.ofDecimal significand exponent)

end Decimal

end ActiveSet

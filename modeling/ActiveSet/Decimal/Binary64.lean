/-
  The exact value of a double

  The 64 bits of a double are a sign, eleven bits of exponent and fifty-two of
  fraction. `Binary64.ofBits` reads them as a whole number times a power of
  two, an infinity or a NaN.
-/

namespace ActiveSet

namespace Decimal

/-- What the bits of a double stand for. -/
inductive Binary64 where
  | nan
  | infinite (negative : Bool)
  | finite (negative : Bool) (significand : Nat) (exponent : Int)

namespace Binary64

/-- The value of a bit pattern. The least biased exponent marks numbers without the implicit
leading bit, the greatest marks infinities and NaNs. -/
def ofBits (bits : UInt64) : Binary64 :=
  let negative := bits >>> 63 == 1
  let biased := ((bits >>> 52) &&& 0x7FF).toNat
  let fraction := (bits &&& 0xFFFFFFFFFFFFF).toNat
  if biased == 0x7FF then
    if fraction == 0 then .infinite negative else .nan
  else if biased == 0 then .finite negative fraction (-1074)
  else .finite negative (0x10000000000000 + fraction) (biased - 1075)

/-- The value of a double. -/
def ofFloat (x : Float) : Binary64 := ofBits x.toBits

end Binary64

end Decimal

end ActiveSet

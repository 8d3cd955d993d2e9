import ActiveSet.Decimal.Rounding
import ActiveSet.Decimal.Binary64
/-
  The decimal text of a double

  `compact` writes `m·10^k` as `"<m>e<k>"`, with as many significant digits
  and places as are asked for and no trailing zeros in `m`. `fixed`,
  `scientific` and `general` lay out a value for a message: with a given
  number of places, with an exponent, or with whichever of the two is shorter
  for the given number of digits.
-/

namespace ActiveSet

namespace Decimal

/-- Divides by ten while the number ends in a zero, counting the divisions. -/
def stripZeros (m : Nat) : Nat × Nat :=
  if _h : m ≠ 0 ∧ m % 10 = 0 then
    let (r, k) := stripZeros (m / 10)
    (r, k + 1)
  else (m, 0)
termination_by m
decreasing_by omega

/-- The value to at most `digits` significant digits and `places` decimal places, written
`"<m>e<k>"`; zero of either sign is `"0"`. -/
def compact (x : Float) (digits places : Int) : String :=
  match Binary64.ofFloat x with
  | .nan => "nan"
  | .infinite negative => if negative then "-inf" else "inf"
  | .finite negative significand exponent =>
    if significand == 0 then "0"
    else
      let value := Magnitude.ofBinary significand exponent
      let k := max (value.leadingExponent - digits + 1) (-places)
      let m := value.roundTo k
      if m == 0 then "0"
      else
        let (m, zeros) := stripZeros m
        (if negative then "-" else "") ++ toString m ++ "e" ++ toString (k + zeros)

/-- The text with zeros in front up to the given length. -/
def padZeros (width : Nat) (text : String) : String :=
  String.ofList (List.replicate (width - text.length) '0') ++ text

/-- The digits without trailing zeros. -/
def dropTrailingZeros (digits : List Char) : List Char :=
  (digits.reverse.dropWhile (· == '0')).reverse

/-- The digits after the point, with the point; a point without digits stands only where it is
asked for. -/
def fraction (digits : List Char) (point : Bool) : String :=
  if digits.isEmpty then (if point then "." else "") else "." ++ String.ofList digits

/-- The value with the given number of decimal places. -/
def fixed (places : Nat) (point : Bool) (value : Magnitude) : String :=
  let digits := (padZeros (places + 1) (toString (value.roundTo (-places)))).toList
  String.ofList (digits.take (digits.length - places)) ++
    fraction (digits.drop (digits.length - places)) point

/-- The digits of the value to `count` significant digits, and the exponent of the first. A
value just below a power of ten may round up to it. -/
def significant (count : Nat) (value : Magnitude) : List Char × Int :=
  if value.num == 0 then (List.replicate count '0', 0)
  else
    let e := value.leadingExponent
    let m := value.roundTo (e - count + 1)
    if m == Nat.pow 10 count then ((toString (m / 10)).toList, e + 1) else ((toString m).toList, e)

/-- An exponent with its sign and at least two digits. -/
def exponentText (e : Int) : String :=
  (if e < 0 then "e-" else "e+") ++ padZeros 2 (toString e.natAbs)

/-- The value with one digit before the point, the given number after it, and an exponent. -/
def scientific (places : Nat) (point : Bool) (value : Magnitude) : String :=
  let (digits, e) := significant (places + 1) value
  String.ofList (digits.take 1) ++ fraction (digits.drop 1) point ++ exponentText e

/-- More significant digits than the exact value of any double has. -/
def ampleDigits : Nat := 1100

/-- The value of a double to the given number of significant digits: with an exponent where that
is below -4 or no smaller than the number of digits, else positionally. Trailing zeros go unless
`keepZeros` is set. -/
def general (digits : Nat) (keepZeros : Bool) (value : Magnitude) : String :=
  let count := max 1 (if keepZeros then digits else min digits ampleDigits)
  let (ds, e) := significant count value
  let tidy (l : List Char) := if keepZeros then l else dropTrailingZeros l
  if e < -4 || (count : Int) ≤ e then
    String.ofList (ds.take 1) ++ fraction (tidy (ds.drop 1)) keepZeros ++ exponentText e
  else if e < 0 then
    "0" ++ fraction (tidy (List.replicate (-e - 1).toNat '0' ++ ds)) keepZeros
  else
    String.ofList (ds.take (e.toNat + 1)) ++ fraction (tidy (ds.drop (e.toNat + 1))) keepZeros

/-- A double to the given number of significant digits, as it stands in a message. -/
def generalText (digits : Nat) (x : Float) : String :=
  match Binary64.ofFloat x with
  | .nan => "nan"
  | .infinite negative => if negative then "-inf" else "inf"
  | .finite negative significand exponent =>
    (if negative then "-" else "") ++
      general digits false (Magnitude.ofBinary significand exponent)

end Decimal

end ActiveSet

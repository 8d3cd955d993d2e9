import ActiveSet.Scalar
/-
  Double precision

  Doubles are the numbers that the program runs with. Their operations are
  those of the hardware, each rounded once; `hypot` alone is built from
  others. It carries what its sums and products lose to rounding along, so
  that its error stays close to the half unit in the last place that rounding
  costs at least: lengths are compared with thresholds.
-/

namespace ActiveSet

namespace Double

/-- A number kept as a double and what it lacks, which is another double. -/
structure Compensated where
  head : Float
  rest : Float

/-- The double in two halves of at most 26 bits each; the factor is `2^27 + 1`. -/
def halves (x : Float) : Compensated :=
  let t := x * 134217729
  let head := t - (t - x)
  ⟨head, x - head⟩

/-- A product without loss; the products of halves are exact. -/
def exactProduct (x y : Float) : Compensated :=
  let a := halves x
  let b := halves y
  let p := a.head * b.head
  let q := a.head * b.rest + a.rest * b.head
  let z := p + q
  ⟨z, p - z + q + a.rest * b.rest⟩

/-- A sum without loss, where the first number is no smaller in size than the second. -/
def exactSum (x y : Float) : Compensated :=
  let s := x + y
  ⟨s, x - s + y⟩

/-- A sum that starts from one, as its leading part and what products and sums have lost. -/
structure Total where
  sum : Float
  fromProducts : Float
  fromSums : Float

namespace Total

/-- The sum with a number added. -/
def add (t : Total) (x : Float) : Total :=
  let s := exactSum t.sum x
  { t with sum := s.head, fromSums := t.fromSums + s.rest }

/-- The sum with a product added. -/
def addProduct (t : Total) (x y : Float) : Total :=
  let p := exactProduct x y
  { t.add p.head with fromProducts := t.fromProducts + p.rest }

/-- The sum, less the one that it started from. -/
def value (t : Total) : Float := t.sum - 1 + (t.fromProducts + t.fromSums)

end Total

/-- The length of two components of size below one, of which one is no smaller than a half: the
square root of the sum of squares, and a correction by what its own square lacks of that sum. -/
def lengthOfScaled (x y : Float) : Float :=
  let squares := ((Total.mk 1 0 0).addProduct x x).addProduct y y
  let h := squares.value.sqrt
  h + (squares.addProduct (-h) h).value / (2 * h)

/-- The length of two finite components that are not negative and not both zero. The greater one
is scaled to between a half and one; where that would take a factor beyond the range, both are
divided by it instead. -/
def lengthOf (x y : Float) : Float :=
  let large := if x < y then y else x
  let e := large.frExp.2
  if e < -1023 then
    let u := x / large
    let v := y / large
    large * (((Total.mk 1 0 0).add (u * u)).add (v * v)).value.sqrt
  else
    let scale := (1 : Float).scaleB (-e)
    lengthOfScaled (x * scale) (y * scale) / scale

/-- The length of a pair of doubles. An infinite component makes it infinite, even beside a
NaN. -/
def hypot (a b : Float) : Float :=
  let x := a.abs
  let y := b.abs
  if x.isInf || y.isInf then 1 / 0
  else if x.isNaN || y.isNaN then 0 / 0
  else if x == 0 && y == 0 then 0
  else lengthOf x y

end Double

instance : Scalar Float where
  zero := 0
  one := 1
  natCast := Float.ofNat
  sqrt := Float.sqrt
  hypot := Double.hypot
  abs := Float.abs
  lt x y := x < y
  le x y := x ≤ y
  isFinite := Float.isFinite
  isNaN := Float.isNaN
  isBelowTop x := x < 1 / 0

end ActiveSet

import CurveLock.Number.Scaled

/-!
# Decimals with a given number of digits

A magnitude, in units of the least positive floating-point number, is written with as many decimal
places or as many significant digits as are asked for. The decimal is the one nearest to the
magnitude, and of two equally near the one whose last digit is even.

* `Decimal.fixed`: with a number of decimal places;
* `Decimal.scientific`: with a number of decimal places and an exponent;
* `Decimal.general`: with a number of significant digits, in whichever of the two forms suits the
  magnitude, and without zeros at the end.

`roundedQuotient` is the rounding of all three.
-/

namespace CurveLock

/-- The whole number nearest to `num / den`; of two equally near the even one. -/
def roundedQuotient (num den : Nat) : Nat :=
  let q := num / den
  let r := num % den
  if 2 * r < den || (2 * r = den && q % 2 = 0) then q else q + 1

/-- A whole number is not rounded. -/
theorem roundedQuotient_mul (n den : Nat) (h : 0 < den) : roundedQuotient (n * den) den = n := by
  simp [roundedQuotient, Nat.mul_div_cancel _ h, h]

namespace Decimal

/-- No magnitude has more decimal places than this: the unit itself has as many. -/
def mostPlaces : Nat := 1074

/-- No magnitude has more significant digits than this. -/
def mostDigits : Nat := 767

/-- Zeros. -/
def zeros (n : Nat) : List Char := List.replicate n '0'

/-- Digits on both sides of a point; where none follow it, the point is left out unless it is to be
kept. -/
def pointed (whole fraction : List Char) (keepPoint : Bool) : List Char :=
  if fraction.isEmpty && !keepPoint then whole else whole ++ '.' :: fraction

/-- A magnitude with a number of decimal places. -/
def fixed (v places : Nat) (keepPoint : Bool) : List Char :=
  let exact := min places mostPlaces
  let ds := Nat.toDigits 10 (roundedQuotient (v * Nat.pow 10 exact) Scaled.one)
  let ds := zeros (exact + 1 - ds.length) ++ ds
  let cut := ds.length - exact
  pointed (ds.take cut) (ds.drop cut ++ zeros (places - exact)) keepPoint

/-- The power of ten for which the leading digit of a magnitude stands. All magnitudes are above
`10 ^ -400`. -/
def leadingPower (v : Nat) : Int :=
  (Nat.toDigits 10 (v * Nat.pow 10 400 / Scaled.one)).length - 401

/-- The leading digits of a magnitude, and the power of ten for which the first of them stands. -/
def significant (v count : Nat) : List Char × Int :=
  if v = 0 then (zeros count, 0)
  else
    let exact := min count mostDigits
    let top := leadingPower v
    let shift : Int := exact - 1 - top
    let ds := Nat.toDigits 10
      (roundedQuotient (v * Nat.pow 10 shift.toNat) (Scaled.one * Nat.pow 10 (-shift).toNat))
    -- rounding up may carry into a digit before the first
    (ds.take exact ++ zeros (count - exact), if exact < ds.length then top + 1 else top)

/-- A magnitude with one digit before the point, a number of decimal places, and an exponent. -/
def scientific (v places : Nat) (keepPoint : Bool) : List Char :=
  let (ds, top) := significant v (places + 1)
  pointed (ds.take 1) (ds.drop 1) keepPoint ++ BinaryFloat.exponentText top

/-- Digits without the zeros at their end. -/
def withoutZeros (ds : List Char) : List Char := (ds.reverse.dropWhile (· == '0')).reverse

/-- A magnitude with a number of significant digits, at least one. It has an exponent when its
leading digit stands for less than `10 ^ -4`, or for so much that a digit before the point would be
missing. The point and the zeros at the end are left out unless they are to be kept. -/
def general (v count : Nat) (keepZeros : Bool) : List Char :=
  let count := max count 1
  let (ds, top) := significant v (if keepZeros then count else min count mostDigits)
  let exponent := top < -4 || count ≤ top
  let (whole, fraction) :=
    if exponent then (ds.take 1, ds.drop 1)
    else if top < 0 then (['0'], zeros (-top - 1).toNat ++ ds)
    else (ds.take (top + 1).toNat, ds.drop (top + 1).toNat)
  let fraction := if keepZeros then fraction else withoutZeros fraction
  pointed whole fraction keepZeros ++ (if exponent then BinaryFloat.exponentText top else [])

end Decimal

end CurveLock

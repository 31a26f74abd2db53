import CurveLock.Datum.Template

/-!
# By what a point is multiplied

A point is multiplied by any value. One that does not count as true makes the multiple infinity, a
floating-point number stands for an integer, and a text or a byte string is taken for a template.

* `Curve.roundScalar`: the integer for which a floating-point number stands;
* `Datum.templateMultiplier`: what becomes of a template;
* `Datum.multiplier`: the integer for which any value stands.
-/

namespace CurveLock

namespace Curve

variable (c : Curve)

/-- The integer by which a point is multiplied when a floating-point number asks for it: the number
modulo twice the order when this is an even integer, and otherwise an odd one. At the base point it
is the largest odd integer that is not above; elsewhere it is the odd integer between the two even
ones around the number. The base point has a table of its powers of two, all of which are added for
no number; elsewhere the digits of no number never end. -/
def roundScalar (atBase : Bool) (x : Scaled) : Except Failure Int :=
  let one : Int := Scaled.one
  match x.remainder (2 * c.order) with
  | some v =>
    if v % (2 * one) = 0 then .ok (v / one)
    else if atBase then .ok (2 * ((v + one) / (2 * one)) - 1)
    else .ok (2 * (v / (2 * one)) + 1)
  | none =>
    if atBase then .ok ((1 <<< (bitLength c.order + 3) : Nat) - 1) else .error .outOfMemory

end Curve

namespace Datum

/-- Why a value that is no number has no residue with binary digits: divided with remainder it is a
template that the divisor fills in, and the remainder is divided by two. -/
def noDigits (remainder : Datum) : Failure :=
  match remainder.filled (int 2) with
  | .ok _ => .wrongType
  | .error f => f

/-- The integer by which a point of `c` is multiplied when a value that is no number asks for it.
Where the residue is empty it has no digits, and the multiple is infinity; at the base point there
are as many digits to look at as the table has entries. -/
def templateMultiplier (c : Curve) (atBase : Bool) (k : Datum) : Except Failure Int := do
  let remainder ← k.filled (int (2 * c.order))
  if atBase || remainder.isTrue then throw remainder.noDigits
  return 0

/-- The integer by which a point of `c` is multiplied when a value asks for it. -/
def multiplier (c : Curve) (atBase : Bool) (k : Datum) : Except Failure Int :=
  if k.isTrue then
    match k.integer?, k.number? with
    | some n, _ => .ok n
    | none, some x => c.roundScalar atBase x
    | none, none => k.templateMultiplier c atBase
  else .ok 0

@[simp] theorem multiplier_int (c : Curve) (atBase : Bool) (k : Int) :
    multiplier c atBase (int k) = .ok k := by
  by_cases h : k = 0
  · simp [multiplier, isTrue_int, h]
  · simp [multiplier, isTrue_int, integer?, h]

end Datum

end CurveLock

import CurveLock.Curve.Scalar
import CurveLock.Curve.HashToPoint

/-!
# Counted group operations

Multiplication and addition of points, one counted step each.

* `Curve.mul`, `Curve.sum` work on points of the curve itself;
* `PlacedPoint.mul`, `PlacedPoint.sum` work on points that carry their own curve; points of
  different curves cannot be added.
-/

namespace CurveLock

namespace Curve

variable (c : Curve)

/-- The multiple `k · P` of a point of the curve. -/
def mul (P : Point) (k : Int) : Metered Point := do
  Metered.tick
  return c.smul k P

/-- The sum of two points of the curve. -/
def sum (P Q : Point) : Metered Point := do
  Metered.tick
  return c.add P Q

@[simp] theorem run_mul (P : Point) (k : Int) (s : Scratch) :
    (c.mul P k).run s = .ok (c.smul k P) { s with opCount := s.opCount + 1 } := rfl

@[simp] theorem run_sum (P Q : Point) (s : Scratch) :
    (c.sum P Q).run s = .ok (c.add P Q) { s with opCount := s.opCount + 1 } := rfl

end Curve

namespace PlacedPoint

/-- The multiple `k · P` of a point of any curve. -/
def mul (P : PlacedPoint) (k : Int) : Metered PlacedPoint := do
  Metered.tick
  return P.smul k

/-- The sum of two points of one and the same curve, asked for in the group of `c`. -/
def sum (c : Curve) (P Q : PlacedPoint) : Metered PlacedPoint := do
  Metered.tick
  match P.add? Q with
  | some R => return R
  | none => throw (.breakdown (.noSum c))

end PlacedPoint

end CurveLock

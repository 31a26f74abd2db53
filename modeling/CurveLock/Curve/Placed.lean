import CurveLock.Curve.Named

/-!
# Points that know their curve

A point that is handed in or out (`PlacedPoint`) carries the curve on which it was made, so that
points of different curves can be told apart. The point at infinity belongs to every curve.
-/

namespace CurveLock

/-- A point together with the curve on which it was made. -/
inductive PlacedPoint where
  | infinity
  | on (c : Curve) (x y : Nat)
  deriving DecidableEq, Repr

namespace PlacedPoint

/-- A point of a given curve. -/
def ofPoint (c : Curve) : Point → PlacedPoint
  | .infinity => .infinity
  | .affine x y => .on c x y

/-- The point without its curve. -/
def toPoint : PlacedPoint → Point
  | .infinity => .infinity
  | .on _ x y => .affine x y

/-- The multiple `k · P`, on the point's own curve. -/
def smul (k : Int) : PlacedPoint → PlacedPoint
  | .infinity => .infinity
  | .on c x y => .ofPoint c (c.smul k (.affine x y))

/-- The sum of two points; none when they lie on different curves. -/
def add? : PlacedPoint → PlacedPoint → Option PlacedPoint
  | .infinity, Q => some Q
  | P, .infinity => some P
  | .on c x₁ y₁, .on d x₂ y₂ =>
    if c = d then some (.ofPoint c (c.add (.affine x₁ y₁) (.affine x₂ y₂))) else none

end PlacedPoint

end CurveLock

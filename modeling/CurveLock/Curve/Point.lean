import CurveLock.Number.Inverse

/-!
# The chord and tangent law

A short Weierstrass curve `y² = x³ + a·x + b` modulo a prime `p` (`Weierstrass`), its points in
affine coordinates (`Point`), and their addition.

* `Weierstrass.Contains P`: the coordinates are reduced and satisfy the equation;
* `Weierstrass.add`, `Weierstrass.neg`, `Weierstrass.multiple`: the group operations. They are
  complete: doubling, opposite points and infinity need no care from the caller.
-/

namespace CurveLock

/-- The curve `y² = x³ + a·x + b` over the integers modulo `p`. -/
structure Weierstrass where
  p : Nat
  a : Nat
  b : Nat
  deriving DecidableEq, Repr

/-- A point in affine coordinates, or the point at infinity. -/
inductive Point where
  | infinity
  | affine (x y : Nat)
  deriving DecidableEq, Repr

namespace Weierstrass

variable (W : Weierstrass)

/-- The right side `x³ + a·x + b` of the equation. -/
def rightSide (x : Nat) : Nat := (x * x * x + W.a * x + W.b) % W.p

/-- The point lies on the curve, with coordinates below `p`. -/
def Contains : Point → Prop
  | .infinity => True
  | .affine x y => x < W.p ∧ y < W.p ∧ y * y % W.p = W.rightSide x

instance (P : Point) : Decidable (W.Contains P) := by
  cases P <;> unfold Contains <;> infer_instance

/-! ### Addition -/

/-- The quotient of two residues; zero when the divisor has no inverse. -/
def quotient (u v : Nat) : Nat := u * (inverse? v W.p).getD 0 % W.p

/-- The slope of the tangent at a point. -/
def tangent (x y : Nat) : Nat := W.quotient (3 * x * x + W.a) (2 * y)

/-- The slope of the chord through two points. -/
def chord (x₁ y₁ x₂ y₂ : Nat) : Nat := W.quotient (y₂ + (W.p - y₁)) (x₂ + (W.p - x₁))

/-- The reflected third point on the line of slope `s` through `(x₁, y₁)` that also meets the curve
over `x₂`. -/
def third (s x₁ y₁ x₂ : Nat) : Point :=
  let x₃ := (s * s + (W.p - x₁) + (W.p - x₂)) % W.p
  .affine x₃ ((s * (x₁ + (W.p - x₃)) + (W.p - y₁)) % W.p)

/-- The sum of two points. -/
def add : Point → Point → Point
  | .infinity, Q => Q
  | P, .infinity => P
  | .affine x₁ y₁, .affine x₂ y₂ =>
    if x₁ = x₂ then
      if (y₁ + y₂) % W.p = 0 then .infinity else W.third (W.tangent x₁ y₁) x₁ y₁ x₂
    else W.third (W.chord x₁ y₁ x₂ y₂) x₁ y₁ x₂

/-- The opposite point. -/
def neg : Point → Point
  | .infinity => .infinity
  | .affine x y => .affine x ((W.p - y) % W.p)

/-- The sum of `n` copies of a point. -/
def multiple (n : Nat) (P : Point) : Point := doubleAndAdd W.add .infinity P n

end Weierstrass

end CurveLock

import CurveLock.Curve.Named

/-!
# Weighted coordinates

In weighted coordinates a point is doubled, and a point with plain coordinates is added to it,
without a division: `(x, y, z)` stands for `(x / z², y / z³)`, and weight zero for infinity. A
multiple is found in this way, from the signed digits of the multiplier, and only its plain
coordinates are reduced to the one point that they stand for.

* `Weierstrass.doubleWeighted`, `Weierstrass.addWeighted`: one step;
* `Weierstrass.smulWeighted`: the multiple of a point by a number;
* `Weierstrass.ofWeighted`: the point that weighted coordinates stand for.

The coordinates are integers and not residues, because the opposite of a point is made by changing
the sign of `y`, without reducing it (`Weighted.neg`). Addition reduces what it compares, with one
exception: where the weight is one it takes the coordinates as they are, and does not see that two
points are the same when one of them is such an opposite.

* `Curve.Arithmetic`: what decryption asks of an arithmetic of points;
* `Curve.weighted`: the arithmetic in weighted coordinates.
-/

namespace CurveLock

/-- Weighted coordinates. -/
structure Weighted where
  x : Int
  y : Int
  z : Int
  deriving DecidableEq, Repr

/-- The opposite point. The second coordinate is not reduced. -/
def Weighted.neg (P : Weighted) : Weighted := { P with y := -P.y }

namespace Weierstrass

variable (W : Weierstrass)

/-- The double of a point. -/
def doubleWeighted (P : Weighted) : Weighted :=
  let yy := P.y * P.y % W.p
  let zz := P.z * P.z % W.p
  let s := 4 * P.x * yy % W.p
  let m := (3 * P.x * P.x + W.a * zz * zz) % W.p
  let x := (m * m - 2 * s) % W.p
  { x := x
    y := (m * (s - x) - 8 * yy * yy) % W.p
    z := 2 * P.y * P.z % W.p }

/-- How far a first coordinate is from that of `P`, in the scale of `P`; reduced unless the weight
is one. -/
def fstDifference (P : Weighted) (x₂ : Int) : Int :=
  if P.z = 1 then x₂ - P.x else (x₂ * (P.z * P.z % W.p) - P.x) % W.p

/-- Twice how far a second coordinate is from that of `P`, in the scale of `P`; reduced unless the
weight is one. -/
def sndDifference (P : Weighted) (y₂ : Int) : Int :=
  if P.z = 1 then 2 * (y₂ - P.y) else 2 * (y₂ * P.z * (P.z * P.z % W.p) - P.y) % W.p

/-- The sum with a point given by its plain coordinates that is another one. -/
def chordWeighted (P : Weighted) (x₂ y₂ : Int) : Weighted :=
  let h := W.fstDifference P x₂
  let r := W.sndDifference P y₂
  let i := 4 * h * h % W.p
  let j := h * i
  let v := P.x * i
  let x := (r * r - j - 2 * v) % W.p
  { x := x
    y := (r * (v - x) - 2 * P.y * j) % W.p
    z := 2 * h * P.z % W.p }

/-- The sum with a point given by its plain coordinates. -/
def addWeighted (P : Weighted) (x₂ y₂ : Int) : Weighted :=
  if P.z = 0 then ⟨x₂ % W.p, y₂ % W.p, 1⟩
  else if W.fstDifference P x₂ = 0 ∧ W.sndDifference P y₂ = 0 then W.doubleWeighted ⟨x₂, y₂, 1⟩
  else W.chordWeighted P x₂ y₂

/-- The multiple of the point `(x, y)` by `n`, which has at most `k` signed digits: digits zero, one
and minus one, of any two neighbours at least one zero. For the digit minus one the opposite of the
point is added, with its second coordinate reduced. -/
def multipleWeighted (x y : Nat) : (k n : Nat) → Weighted
  | 0, _ => ⟨0, 0, 0⟩
  | k + 1, n =>
    if n % 2 = 0 then W.doubleWeighted (multipleWeighted x y k (n / 2))
    else if n % 4 = 1 then
      W.addWeighted (W.doubleWeighted (multipleWeighted x y k (n / 2))) x y
    else
      W.addWeighted (W.doubleWeighted (multipleWeighted x y k (n / 2 + 1))) x (W.p - y : Nat)

/-- The multiple of a point. -/
def smulWeighted (n : Nat) : Point → Weighted
  | .infinity => ⟨0, 0, 0⟩
  | .affine x y => W.multipleWeighted x y (bitLength n + 1) n

/-- The sum of a point and weighted coordinates. -/
def pointAddWeighted : Point → Weighted → Weighted
  | .infinity, Q => Q
  | .affine x y, Q => W.addWeighted Q x y

/-- The point that weighted coordinates stand for. -/
def ofWeighted (P : Weighted) : Point :=
  match inverse? (P.z % W.p).toNat W.p with
  | some i => .affine (P.x * i * i % W.p).toNat (P.y * i * i * i % W.p).toNat
  | none => .infinity

end Weierstrass

namespace Curve

/-- What decryption asks of an arithmetic of points: multiples of a point, opposites of these, and
their sums with a point. In between, a point has whatever form the arithmetic gives it. -/
structure Arithmetic (c : Curve) where
  Form : Type
  mul : Nat → Point → Form
  neg : Form → Form
  add : Point → Form → Form
  toPoint : Form → Point

variable (c : Curve)

/-- Points multiplied and added in weighted coordinates. -/
def weighted : c.Arithmetic where
  Form := Weighted
  mul := c.equation.smulWeighted
  neg := Weighted.neg
  add := c.equation.pointAddWeighted
  toPoint := c.equation.ofWeighted

end Curve

end CurveLock

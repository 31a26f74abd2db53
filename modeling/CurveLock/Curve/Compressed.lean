import CurveLock.Arithmetic
import CurveLock.Number.SquareRoot

/-!
# The compressed form of points

A finite point is written as a tag byte, 2 when its second coordinate is even and 3 when it is odd,
followed by its first coordinate at the width of the field.

* `Curve.isSquare`, `Curve.root`: the square test and the square root of the field;
* `Curve.withParity`: of two opposite residues the one that is odd, or the one that is not;
* `Curve.encodePoint`, `Curve.decodePoint`: writing and reading.
-/

namespace CurveLock

namespace Curve

variable (c : Curve)

/-! ### Squares of the field -/

/-- The right side `x³ + a·x + b` of the equation, for any integer `x`. -/
def rightSide (x : Int) : Nat := c.equation.rightSide (x % c.prime).toNat

/-- Whether an integer is a square modulo the prime and not divisible by it. -/
def isSquare (v : Int) : Bool := isSquareMod c.prime (v % c.prime).toNat

/-- A square root of `v`, either of the two. -/
def root (v : Nat) : Except Failure Nat :=
  match sqrtMod? c.prime c.parameters.nonSquare v with
  | some r => .ok r
  | none => .error (.breakdown (.noSquareRoot c))

/-- The residue `y` or its opposite: the one that is odd or not as asked. -/
def withParity (odd : Bool) (y : Nat) : Nat := if (y % 2 == 1) = odd then y else c.prime - y

/-- The even one of the square roots of `v`. -/
def evenRoot (v : Nat) : Except Failure Nat := do
  let y ← c.root v
  return c.withParity false y

/-! ### Writing and reading -/

/-- The tag byte of a point with an even second coordinate. -/
def evenTag : UInt8 := 2

/-- The tag byte of a point with an odd second coordinate. -/
def oddTag : UInt8 := 3

/-- The compressed form of a point. Only the width of its first coordinate is checked, so that a
point of another curve is written too when it fits. -/
def encodePoint : Point → Except Failure Bytes
  | .infinity => .error (.breakdown .infinityHasNoEncoding)
  | .affine x y => do
    let xs ← encodeInteger x (some c.fieldWidth)
    return (if y % 2 = 0 then evenTag else oddTag) :: xs

/-- The point with first coordinate `x` and a second coordinate that is odd or not as asked. -/
def liftX (x : Nat) (odd : Bool) : Except Failure Point :=
  let v := c.rightSide x
  if c.isSquare v then do
    let y ← c.root v
    return .affine x (c.withParity odd y)
  else .error (.refuse (.noSuchPoint c))

/-- The point whose compressed form the bytes are. -/
def pointOfBytes (b : Bytes) : Except Failure Point :=
  match b with
  | tag :: xs =>
    if b.length ≠ 1 + c.fieldWidth then
      .error (.refuse (.pointLength c (1 + c.fieldWidth) b.length))
    else if tag ≠ evenTag ∧ tag ≠ oddTag then .error (.refuse (.badTag tag))
    else if c.prime ≤ Bytes.toNat xs then .error (.refuse .coordinateTooLarge)
    else c.liftX (Bytes.toNat xs) (tag = oddTag)
  | [] => .error (.refuse (.pointLength c (1 + c.fieldWidth) 0))

/-- The point that a value spells, which has to be a byte string. -/
def decodePoint (d : Datum) : Except Failure Point :=
  match d.bytes? with
  | some b => c.pointOfBytes b
  | none => .error (.refuse (.notBytes .point d))

/-- The two points that a value spells, which has to hold exactly two byte strings. -/
def decodePair (d : Datum) : Except Failure (Point × Point) := do
  match d.pair? with
  | some (d₁, d₂) =>
    let P ← c.decodePoint d₁
    let Q ← c.decodePoint d₂
    return (P, Q)
  | none => throw (.refuse .notAPair)

end Curve

end CurveLock

import CurveLock.Arithmetic

/-!
# Private keys and scalars

* `Key c`: a private key of the curve `c`, an integer in `[1, n - 1]` for the order `n`;
* `Curve.key`, `Curve.newKey`: an integer checked as a key, and a random key;
* `Curve.encodeScalar`, `Curve.decodeScalar`: scalars as bytes, at the width of the order.
-/

namespace CurveLock

/-- A private key of the curve `c`. -/
structure Key (c : Curve) where
  val : Nat
  pos : 0 < val
  lt_order : val < c.order
  deriving DecidableEq, Repr

namespace Curve

variable (c : Curve)

/-- An integer as a private key. -/
def key (k : Int) : Except Failure (Key c) :=
  if h : 0 < k.toNat ∧ k.toNat < c.order then .ok ⟨k.toNat, h.1, h.2⟩
  else .error (.refuse .keyOutOfRange)

/-- A random integer in `[1, n - 1]`. -/
def randomScalar : Metered Int := Metered.randomBetween 1 c.order

/-- A random private key. -/
def newKey : Metered (Key c) := do c.key (← c.randomScalar)

/-- A scalar as bytes. -/
def encodeScalar (k : Int) : Except Failure Bytes := encodeInteger k (some c.scalarWidth)

/-- The scalar that bytes spell. -/
def scalarOfBytes (b : Bytes) : Except Failure Nat :=
  if b.length = c.scalarWidth then .ok b.toNat
  else .error (.refuse (.scalarLength c.scalarWidth b.length))

/-- The scalar that a value spells, which has to be a byte string. -/
def decodeScalar (d : Datum) : Except Failure Nat :=
  match d.bytes? with
  | some b => c.scalarOfBytes b
  | none => .error (.refuse (.notBytes .scalar d))

end Curve

end CurveLock

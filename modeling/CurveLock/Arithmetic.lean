import CurveLock.Datum.Reading
import CurveLock.Scratch

/-!
# Integers as bytes, and counted modular arithmetic

* `encodeInteger` writes an integer as bytes, at a given width or as short as possible;
* `Metered.mulMod`, `Metered.powMod`, `Metered.inverseMod`: one counted step each, also when they
  fail;
* `Metered.randomBelow`, `Metered.randomBetween`: uniform random integers.
-/

namespace CurveLock

/-- A natural number in `width` bytes, where a message shows the width as `shown`. -/
def encodeAt (n : Nat) (width : Int) (shown : Datum) : Except Failure Bytes :=
  if -Datum.lengthLimit ≤ width ∧ width < 0 then .error .negativeWidth
  else if Datum.memoryLimit ≤ width ∧ width < Datum.widthLimit then .error .outOfMemory
  else if 0 ≤ width ∧ width < Datum.widthLimit ∧ byteLength n ≤ width then
    .ok (Bytes.ofNatWidth width.toNat n)
  else .error (.refuse (.doesNotFit (bitLength n) shown))

/-- An integer as big-endian bytes, in `width` bytes, or in as few as possible when no width is
given. A negative width is an error of its own, unless it is so small that, like one that is too
large, no integer fits. -/
def encodeInteger (value : Int) (width : Option Int) : Except Failure Bytes :=
  if value < 0 then .error (.refuse (.negativeInteger (.int value)))
  else
    match width with
    | none => .ok (Bytes.ofNat value.toNat)
    | some w => encodeAt value.toNat w (.int w)

namespace Metered

/-- The product `a · b` modulo `m`, with the sign of `m`. -/
def mulMod (a b m : Int) : Metered Int := do
  tick
  if m = 0 then throw .zeroModulus
  return Residue.reduce (a * b) m

/-- The power `b ^ e` modulo `m`. -/
def powMod (b e m : Int) : Metered Int := do
  tick
  match Residue.power b e m with
  | .ok r => return r
  | .error f => throw (.power f)

/-- The inverse of `v` modulo `m`, where a message shows the modulus as `shown`. -/
def inverseModAs (v m : Int) (shown : Datum) : Metered Int := do
  tick
  match Residue.inverse? v m with
  | some r => return r
  | none => throw (.breakdown (.notInvertible shown))

/-- The inverse of `v` modulo `m`. -/
def inverseMod (v m : Int) : Metered Int := inverseModAs v m (.int m)

/-- A random integer in `[0, bound)`. -/
def randomBelow (bound : Int) : Metered Int := do
  if bound ≤ 0 then refuse (.boundNotPositive (.int bound))
  tick
  return (← draw bound.toNat : Nat)

/-- A random integer in `[low, high)`. -/
def randomBetween (low high : Int) : Metered Int := do
  if high ≤ low then refuse (.emptyRange (.int low) (.int high))
  return low + (← randomBelow (high - low))

end Metered

end CurveLock

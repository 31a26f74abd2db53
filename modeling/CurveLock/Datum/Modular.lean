import CurveLock.Arithmetic
import CurveLock.Datum.Multiplier
import CurveLock.Datum.Operators

/-!
# Arithmetic on values of any type

The operations on integers, for arguments of any type. Where all arguments are integers, each is the
operation of the same name on integers. A product that is a text or a byte string has a residue too,
for it is a template (`Datum.residue`). Floating-point numbers are compared with bounds by value; a
result that would be one of them is not computed, and fails as a value of the wrong type unless its
computation fails in another way.

* `Datum.encode`: an integer as bytes;
* `Datum.mulMod`, `Datum.powMod`, `Datum.inverseMod`: one counted step each, also when they fail.
  With null for a modulus the last two are plain powers;
* `Datum.randomBelow`, `Datum.randomBetween`: uniform random integers.
-/

namespace CurveLock

namespace Datum

/-- A value as big-endian bytes, at a width that is a value too; null asks for the shortest form. -/
def encode (value width : Datum) : Except Failure Bytes := do
  if ← value.isLess (int 0) then throw (.refuse (.negativeInteger value))
  match value.integer?, width with
  | none, _ => throw .missingPart
  | some n, null => encodeInteger n none
  | some n, w => encodeAt n.toNat (← w.number) w

/-! ### Products, powers and inverses -/

/-- Why a product has no residue, when it or the modulus is no integer. -/
def residueFailure (product : Option Datum) (modulus : Datum) : Failure :=
  -- a product that is not computed is a floating-point number
  let number := product.all isNumber
  let inRange : Except Failure Unit := do
    (product.getD null).checkRange
    modulus.checkRange
  match number, modulus.number?, inRange with
  | true, some _, .error f => f
  | true, some (.units 0), .ok _ => .zeroFractionModulus
  | _, _, _ => .wrongType

/-- Why the product of a point and another value has no residue. -/
def pointResidueFailure (P : PlacedPoint) (atBase : Bool) (k : Datum) : Failure :=
  match P with
  | .infinity => .wrongType
  | .on c _ _ =>
    match k.multiplier c atBase with
    | .ok _ => .wrongType
    | .error f => f

/-- What remains of a product of values that are not all integers. A text or a byte string is a
template, and its residue is what it becomes when the modulus fills it in; nothing else has a
residue. -/
def residue (a b modulus : Datum) : Except Failure Datum :=
  match a, b with
  | point P, k | k, point P => .error (pointResidueFailure P false k)
  | base c, k | k, base c => .error (pointResidueFailure (.ofPoint c c.generator) true k)
  | _, _ => do
    match ← a.times b with
    | some (text s) => (text s).filled modulus
    | some (bytes s) => (bytes s).filled modulus
    | some (byteArray s) => (byteArray s).filled modulus
    | product => throw (residueFailure product modulus)

/-- The product of two values modulo a third. -/
def mulMod (a b modulus : Datum) : Metered Datum :=
  match a.integer?, b.integer?, modulus.integer? with
  | some x, some y, some m => return int (← Metered.mulMod x y m)
  | _, _, _ => do
    Metered.tick
    a.residue b modulus

/-- A power of an integer with a natural exponent; one that would be larger than the memory has no
value. -/
def naturalPower (b : Int) (e : Nat) : Except Failure Int :=
  if b.natAbs ≤ 1 then .ok (if e = 0 then 1 else if e % 2 = 0 then b * b else b)
  else if memoryLimit ≤ bitLength b.natAbs * e then .error .outOfMemory
  else
    let magnitude : Nat := Nat.pow b.natAbs e
    .ok (if b < 0 ∧ e % 2 = 1 then -magnitude else magnitude)

/-- The floating-point number nearest to a number. -/
def toFloat? : Datum → Option Float
  | float bits => some (.ofBits bits)
  | d => d.integer?.map Float.ofInt

/-- Why a power that is no integer is not computed. -/
def powerFailure (base exponent : Datum) : Failure :=
  let inRange : Except Failure Unit := do
    base.checkRange
    exponent.checkRange
  match base.toFloat?, exponent.toFloat?, inRange with
  | some _, some _, .error f => f
  | some b, some e, .ok _ =>
    if !(b.isFinite && e.isFinite) then .wrongType
    else if b == 0 && e < 0 then .zeroPower
    else if !(b.abs.pow e).isInf then .wrongType
    else if b < 0 && e.floor != e then .tooLarge .complexRange
    else .tooLarge .powerRange
  | _, _, _ => .wrongType

/-- A power without a modulus. -/
def plainPower (base exponent : Datum) : Except Failure Int :=
  match base.integer?, exponent.integer? with
  | some b, some e =>
    if 0 ≤ e then naturalPower b e.toNat else .error (powerFailure base exponent)
  | _, _ => .error (powerFailure base exponent)

/-- A power of a value modulo another, or without a modulus where that is null. -/
def powMod (base exponent modulus : Datum) : Metered Int :=
  match base.integer?, exponent.integer?, modulus.integer? with
  | some b, some e, some m => Metered.powMod b e m
  | _, _, _ => do
    Metered.tick
    match modulus with
    | null => plainPower base exponent
    | _ => throw .wrongType

/-- The inverse of a value modulo another, or the plain inverse where that is null. -/
def inverseMod (value modulus : Datum) : Metered Int :=
  match value.integer?, modulus.integer? with
  | some v, some m => Metered.inverseModAs v m modulus
  | _, _ => do
    Metered.tick
    match modulus with
    | null => plainPower value (int (-1))
    | _ => throw .wrongType

@[simp] theorem mulMod_int (a b m : Int) :
    mulMod (int a) (int b) (int m) = (do return int (← Metered.mulMod a b m)) := rfl

@[simp] theorem powMod_int (b e m : Int) :
    powMod (int b) (int e) (int m) = Metered.powMod b e m := rfl

@[simp] theorem inverseMod_int (v m : Int) :
    inverseMod (int v) (int m) = Metered.inverseMod v m := rfl

/-! ### Random numbers -/

/-- Whether two numbers have the same nearest floating-point number, so that their difference is
zero. -/
def sameRounded (a b : Datum) : Bool :=
  match a.number?, b.number? with
  | some (.units m), some (.units n) => Scaled.nearest? m == Scaled.nearest? n
  | _, _ => false

/-- A random integer from zero on and below a bound. -/
def randomBelow (bound : Datum) : Metered Int := do
  if ← bound.isAtMost (int 0) then Metered.refuse (.boundNotPositive bound)
  match bound.integer? with
  | some n => Metered.randomBelow n
  | none => do
    Metered.tick
    let _ ← Metered.draw 1
    throw .wrongType

/-- A random integer from one value on and below another. -/
def randomBetween (low high : Datum) : Metered Int := do
  if ← high.isAtMost low then Metered.refuse (.emptyRange low high)
  match low.integer?, high.integer? with
  | some l, some h => Metered.randomBetween l h
  | _, _ => do
    if !(low.isNumber && high.isNumber) then throw .wrongType
    high.checkRange
    low.checkRange
    if high.sameRounded low then Metered.refuse (.boundNotPositive (float 0))
    Metered.tick
    let _ ← Metered.draw 1
    throw .wrongType

end Datum

end CurveLock

import CurveLock.Curve.Group
import CurveLock.Datum.Modular

/-!
# Group operations on values of any type

* `Datum.checkKey`: whether a value lies in the range of private keys;
* `Datum.isSquare`, `Datum.evenRoot`: the square test and the square root of the field;
* `Datum.multiple`, `Datum.sum`: multiples and sums, one counted step each, also when they fail.
  Where no point is among the operands they are products and sums of values.

A point is multiplied by any value (`Datum.multiplier`).
-/

namespace CurveLock

namespace Datum

/-! ### Keys and residues -/

/-- Refuses a value that does not lie between zero and the order. -/
def checkKey (c : Curve) (key : Datum) : Except Failure Unit := do
  if ← key.isAtMost (int 0) then throw (.refuse .keyOutOfRange)
  if ← (int c.order).isAtMost key then throw (.refuse .keyOutOfRange)

/-- Whether a number is a square modulo the prime and not divisible by it. Any other value has no
residue with binary digits. -/
def isSquare (c : Curve) (v : Datum) : Except Failure Bool :=
  match v.integer?, v.number? with
  | some n, _ => .ok (c.isSquare n)
  | none, some x =>
    match x.symbol c.prime with
    | .ok s => .ok (s == 1)
    | .error f => .error (.noSymbol f)
  | none, none => do throw (noDigits (← v.filled (int c.prime)))

/-- The even one of the square roots of a residue. Zero apart, a floating-point number has none;
where the root would be a power of it, this fails as a value of the wrong type. -/
def evenRoot (c : Curve) (v : Datum) : Except Failure Nat := do
  if (← v.isLess (int 0)) || !(← v.isLess (int c.prime)) then throw .notAResidue
  match v.integer?, v.number? with
  | some n, _ => c.evenRoot n.toNat
  | none, some (.units 0) => return 0
  | none, some x =>
    match x.symbol c.prime with
    | .ok s =>
      throw (if s ≠ -1 ∧ c.prime % 4 = 3 then .wrongType else .breakdown (.noSquareRoot c))
    | .error _ => throw (.breakdown (.noSquareRoot c))
  | none, none => throw .wrongType

/-! ### Multiples and sums -/

/-- Counts one step, which fails. -/
def failedStep {α : Type} (f : Failure) : Metered α := do
  Metered.tick
  throw f

/-- Why an operation has no result in the group. Numbers that are too large and faulty templates
break the arithmetic; `b` says of which step. -/
def brokenBy (b : Breakdown) : Failure → Failure
  | .tooLarge _ | .template _ => .breakdown b
  | f => f

/-- The outcome of an operation on two values that are no points, as one counted step. -/
def plainStep (b : Breakdown) (r : Except Failure (Option Datum)) : Metered Datum := do
  Metered.tick
  match r with
  | .ok (some d) => return d
  | .ok none => throw .wrongType
  | .error f => throw (brokenBy b f)

/-- The multiple of a point by a value, asked for in the group of `c`. -/
def multipleOfPoint (c : Curve) (P : PlacedPoint) (atBase : Bool) (k : Datum) :
    Metered PlacedPoint :=
  match P with
  | .infinity => P.mul 0
  | .on d _ _ =>
    match k.multiplier d atBase with
    | .ok n => P.mul n
    | .error f => failedStep (brokenBy (.noMultiple c) f)

@[simp] theorem multipleOfPoint_int (c : Curve) (P : PlacedPoint) (atBase : Bool) (k : Int) :
    multipleOfPoint c P atBase (int k) = P.mul k := by
  cases P with
  | infinity => rfl
  | on d x y => simp [multipleOfPoint]

/-- The multiple of the base point of `d` by a value. Multiplied by one it stays the base point. -/
def multipleOfBase (c d : Curve) (k : Datum) : Metered Datum :=
  if k.same (int 1) then do
    Metered.tick
    return base d
  else return point (← multipleOfPoint c (.ofPoint d d.generator) true k)

/-- The multiple of a point by a value, in either order, or the product of two other values. -/
def multiple (c : Curve) (p k : Datum) : Metered Datum :=
  match p, k with
  | point .infinity, _ => return point (← multipleOfPoint c .infinity false k)
  | point _, point _ | point _, base _ | base _, point _ | base _, base _ => failedStep .wrongType
  | point P, _ => return point (← multipleOfPoint c P false k)
  | base d, _ => multipleOfBase c d k
  | _, point P => return point (← multipleOfPoint c P false p)
  | _, base d => multipleOfBase c d p
  | _, _ => plainStep (.noMultiple c) (p.times k)

@[simp] theorem multiple_point_int (c : Curve) (P : PlacedPoint) (k : Int) :
    multiple c (point P) (int k) = (do return point (← P.mul k)) := by
  cases P <;> simp [multiple]

/-- The sum of two points, or of two other values. A base point stays one when infinity is added. -/
def sum (c : Curve) (p q : Datum) : Metered Datum :=
  match p, q with
  | base d, point .infinity | point .infinity, base d => do
    Metered.tick
    return base d
  | _, _ =>
    match p.placed?, q.placed? with
    | some P, some Q => return point (← PlacedPoint.sum c P Q)
    | some (.on ..), none | none, some (.on ..) => failedStep .missingPart
    | some .infinity, none | none, some .infinity => failedStep .wrongType
    | none, none => plainStep (.noSum c) (p.plus q)

end Datum

end CurveLock

import CurveLock.Bytes
import CurveLock.Number.Shortest

/-!
# Numbers on one scale

Integers and floating-point numbers are compared, and divided with remainder, on one scale whose
unit is the least positive floating-point number: on it every finite one is a whole number
(`Scaled`).

* `Scaled.order?`: how two numbers compare;
* `Scaled.nearest?`: the floating-point number nearest to a whole number of units;
* `Scaled.remainder`: the remainder of a floating-point number modulo a positive integer.
-/

namespace CurveLock

/-- A number in units of the least positive floating-point number; an infinity; or no number. -/
inductive Scaled where
  | nan
  | infinite (negative : Bool)
  | units (n : Int)
  deriving DecidableEq, Repr

namespace Scaled

/-- How many units make up one. -/
def one : Nat := 1 <<< 1074

/-- An integer on the scale. -/
def ofInt (n : Int) : Scaled := .units (n * one)

/-- A floating-point number on the scale. -/
def ofFloat : BinaryFloat → Scaled
  | .nan => .nan
  | .infinite negative => .infinite negative
  | .finite negative m q _ =>
    let v : Int := (m <<< (q + 1074).toNat : Nat)
    .units (if negative then -v else v)

/-- How two numbers compare; not at all when one of them is no number. -/
def order? : Scaled → Scaled → Option Ordering
  | .nan, _ => none
  | _, .nan => none
  | .infinite s, .infinite t => some (if s = t then .eq else if s then .lt else .gt)
  | .infinite s, .units _ => some (if s then .lt else .gt)
  | .units _, .infinite t => some (if t then .gt else .lt)
  | .units m, .units n => some (if m < n then .lt else if m = n then .eq else .gt)

/-! ### Rounding -/

/-- The whole number nearest to `n` that has no more than 53 binary digits before its zeros; of two
equally near the one whose last of these digits is zero. -/
def roundDigits (n : Nat) : Nat :=
  let dropped := bitLength n - 53
  let kept := n >>> dropped
  let rest := n - (kept <<< dropped)
  let half := (1 <<< dropped) / 2
  if rest < half || (rest = half && (dropped = 0 || kept % 2 = 0)) then kept <<< dropped
  else (kept + 1) <<< dropped

/-- The floating-point number nearest to `n` units; none when it is larger than all of them. -/
def nearest? (n : Int) : Option Int :=
  let r := roundDigits n.natAbs
  if bitLength r ≤ 2098 then some (if n < 0 then -(r : Int) else r) else none

/-- Whether an integer has a nearest floating-point number. -/
def isInRange (n : Int) : Bool := (nearest? (n * one)).isSome

/-! ### Remainders -/

/-- The remainder of a floating-point number modulo a positive integer, in units. The integer is
first rounded, and so is the remainder of a negative number. Infinities have none. -/
def remainder (x : Scaled) (n : Nat) : Option Int :=
  match x, nearest? (n * one) with
  | .units v, some m =>
    let r := v.tmod m
    some (if r < 0 then (nearest? (r + m)).getD 0 else r)
  | _, _ => none

end Scaled

end CurveLock

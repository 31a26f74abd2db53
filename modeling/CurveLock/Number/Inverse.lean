import CurveLock.Number.Power

/-!
# Inverses and powers modulo an integer

* `bezout` runs Euclid's algorithm and keeps, for each remainder, the factor that yields it;
* `inverse? v m` is the inverse of `v` modulo a natural number, when there is one;
* `Residue.inverse?` and `Residue.power` do the same for moduli of either sign. A residue of a
  positive modulus `m` lies in `[0, m)`, one of a negative modulus in `(m, 0]`.
-/

namespace CurveLock

/-- Euclid's algorithm on the remainders `r₀`, `r₁` with their factors `s₀`, `s₁`: the last
remainder that is not zero and its factor, or the current pair when the steps run out. -/
def bezout : (steps r₀ r₁ : Nat) → (s₀ s₁ : Int) → Nat × Int
  | 0, r₀, _, s₀, _ => (r₀, s₀)
  | steps + 1, r₀, r₁, s₀, s₁ =>
    if r₁ = 0 then (r₀, s₀)
    else bezout steps r₁ (r₀ % r₁) s₁ (s₀ - (r₀ / r₁ : Nat) * s₁)

/-- The inverse of `v` modulo `m`, in `[0, m)`; none when the two have a common factor or `m` is
zero. The remainders shrink from below `m`, so `m` steps are enough. -/
def inverse? (v m : Nat) : Option Nat :=
  match bezout m m (v % m) 0 1 with
  | (1, s) => if m = 0 then none else some (s % (m : Int)).toNat
  | _ => none

namespace Residue

/-- The remainder of an integer with the sign of the modulus. -/
def reduce (v m : Int) : Int := v.fmod m

/-- The inverse of `v` modulo `m`; none when there is none, and none for modulus zero. -/
def inverse? (v m : Int) : Option Int :=
  (CurveLock.inverse? (v % m.natAbs).toNat m.natAbs).map fun r => reduce r m

/-- Why a power has no value. -/
inductive PowerFault where
  /-- The modulus is zero. -/
  | zeroModulus
  /-- The exponent is negative and the base has no inverse. -/
  | notInvertible
  deriving DecidableEq, Repr

/-- `b ^ e` modulo `m`. A negative exponent raises the inverse of the base; modulo one and minus
one everything is zero, whether or not it has an inverse. -/
def power (b e m : Int) : Except PowerFault Int :=
  let n := m.natAbs
  let base := (b % n).toNat
  if m = 0 then .error .zeroModulus
  else if n = 1 then .ok 0
  else if e < 0 then
    match CurveLock.inverse? base n with
    | some i => .ok (reduce (powMod i e.natAbs n) m)
    | none => .error .notInvertible
  else .ok (reduce (powMod base e.natAbs n) m)

end Residue

end CurveLock

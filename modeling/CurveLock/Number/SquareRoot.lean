import CurveLock.Number.Power

/-!
# Squares and square roots modulo an odd prime

* `isSquareMod p v` is Euler's criterion: `v ^ ((p - 1) / 2) = 1` holds exactly of the nonzero
  squares;
* `oddPart` writes `p - 1` as an odd number times a power of two;
* `sqrtMod? p z v` finds a root of `v` by lowering, one power of two at a time, the order of the
  error `t` in `r² = v·t`. `z` is any non-square; for `p ≡ 3 (mod 4)` it is not used, and the
  root is `v ^ ((p + 1) / 4)`.
-/

namespace CurveLock

/-- Whether `v` is a square modulo the odd prime `p` and not divisible by it. -/
def isSquareMod (p v : Nat) : Bool := powMod v ((p - 1) / 2) p == 1

/-- The odd part of `n`, and how often two divides `n`, looking at no more than `steps` factors. -/
def oddPart : (steps n : Nat) → Nat × Nat
  | 0, n => (n, 0)
  | steps + 1, n =>
    if n % 2 = 0 then
      let (q, s) := oddPart steps (n / 2)
      (q, s + 1)
    else (n, 0)

/-- Lowers the order of the error: with `r² = v·t`, `t ^ (2 ^ k) = 1` and `c` of order
`2 ^ (k + 1)`, the result squares to `v`. -/
def lowerError (p : Nat) : (k c t r : Nat) → Nat
  | 0, _, _, r => r
  | k + 1, c, t, r =>
    let c₂ := c * c % p
    if powMod t (1 <<< k) p = 1 then lowerError p k c₂ t r
    else lowerError p k c₂ (t * c₂ % p) (r * c % p)

/-- A square root of `v` modulo the odd prime `p`, where `z` is a non-square; none when `v` has no
root. -/
def sqrtMod? (p z v : Nat) : Option Nat :=
  let (q, s) := oddPart (bitLength p) (p - 1)
  let r := lowerError p (s - 1) (powMod z q p) (powMod v q p) (powMod v ((q + 1) / 2) p)
  if r * r % p = v % p then some r else none

end CurveLock

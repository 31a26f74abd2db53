import CurveLock.Proofs.Curve.GroupLaw
import CurveLock.Proofs.Curve.Primes

/-!
# The right sides have no zeros

A zero `r` of `x³ + a·x + b` modulo `p` is also a zero of every remainder that is a multiple of `x ^
p - x` modulo this cubic, because `r ^ p = r`.  The remainder of `x ^ p` is found by repeated
doubling (`Weierstrass.mulRemainder`), and `Weierstrass.rootless` tests that it has no zero in
common with the cubic: multiplication by it has a determinant that is not zero.

The test succeeds for every curve, so that all six equations are `Weierstrass.Regular`.
-/

namespace CurveLock

/-- The remainder `c₀ + c₁·x + c₂·x²` of a polynomial modulo a cubic. -/
structure Remainder where
  c₀ : ℕ
  c₁ : ℕ
  c₂ : ℕ

namespace Weierstrass

variable (W : Weierstrass)

/-- A residue that is opposite to `n`. -/
def opposite (n : ℕ) : ℕ := W.p - n % W.p

/-- The product of two remainders modulo the right side. -/
def mulRemainder (u v : Remainder) : Remainder :=
  let c₃ := u.c₁ * v.c₂ + u.c₂ * v.c₁
  let c₄ := u.c₂ * v.c₂
  { c₀ := (u.c₀ * v.c₀ + W.opposite W.b * c₃) % W.p
    c₁ := (u.c₀ * v.c₁ + u.c₁ * v.c₀ + W.opposite W.a * c₃ + W.opposite W.b * c₄) % W.p
    c₂ := (u.c₀ * v.c₂ + u.c₁ * v.c₁ + u.c₂ * v.c₀ + W.opposite W.a * c₄) % W.p }

/-- The remainder of `x ^ p - x`. -/
def frobenius : Remainder :=
  let u := doubleAndAdd W.mulRemainder ⟨1, 0, 0⟩ ⟨0, 1, 0⟩ W.p
  { u with c₁ := u.c₁ + W.opposite 1 }

/-- Whether multiplication by a remainder has a determinant that is not zero. The rows of its matrix
are `u`, `x·u` and `x²·u`. -/
def isInvertible (u : Remainder) : Bool :=
  let m₁₀ := W.opposite W.b * u.c₂
  let m₁₁ := u.c₀ + W.opposite W.a * u.c₂
  let m₂₀ := W.opposite W.b * u.c₁
  let m₂₁ := W.opposite W.a * u.c₁ + W.opposite W.b * u.c₂
  (u.c₀ * m₁₁ * m₁₁ + u.c₁ * u.c₁ * m₂₀ + u.c₂ * m₁₀ * m₂₁) % W.p !=
    (u.c₀ * u.c₁ * m₂₁ + u.c₁ * m₁₀ * m₁₁ + u.c₂ * m₁₁ * m₂₀) % W.p

/-- Whether the right side has no zero. -/
def rootless : Bool := W.isInvertible W.frobenius

/-! ### Values at a zero of the right side -/

/-- The value of a remainder. -/
def value (u : Remainder) (r : ZMod W.p) : ZMod W.p := u.c₀ + u.c₁ * r + u.c₂ * r ^ 2

variable [Fact W.p.Prime]

theorem cast_opposite (n : ℕ) : (W.opposite n : ZMod W.p) = -n := by
  rw [opposite, cast_modulus_sub (Nat.mod_lt _ (Fact.out : W.p.Prime).pos).le, ZMod.natCast_mod]

variable {r : ZMod W.p} (hr : r ^ 3 + W.a * r + W.b = 0)

include hr

theorem value_mulRemainder (u v : Remainder) :
    W.value (W.mulRemainder u v) r = W.value u r * W.value v r := by
  simp only [value, mulRemainder, ZMod.natCast_mod]
  push_cast
  rw [cast_opposite, cast_opposite]
  linear_combination
    -((u.c₁ * v.c₂ + u.c₂ * v.c₁ + u.c₂ * v.c₂ * r : ZMod W.p)) * hr

theorem value_frobenius : W.value W.frobenius r = 0 := by
  have power : W.value (doubleAndAdd W.mulRemainder ⟨1, 0, 0⟩ ⟨0, 1, 0⟩ W.p) r = r ^ W.p := by
    refine doubleAndAdd_induction (fun i u => W.value u r = r ^ i) ?_ ?_ ?_ W.p
    · simp [value]
    · intro i u h
      rw [value_mulRemainder W hr, h, two_mul, pow_add]
    · intro i u h
      rw [value_mulRemainder W hr, h, pow_succ]
      simp [value]
  rw [ZMod.pow_card] at power
  simp only [value, frobenius] at power ⊢
  push_cast
  rw [cast_opposite]
  linear_combination power

theorem not_isInvertible {u : Remainder} (hu : W.value u r = 0) : W.isInvertible u = false := by
  simp only [value] at hu
  -- the rows of the matrix, applied to the powers of `r`
  have row₁ : -(W.b : ZMod W.p) * u.c₂ + (u.c₀ - W.a * u.c₂) * r + u.c₁ * r ^ 2 = 0 := by
    linear_combination r * hu - u.c₂ * hr
  have row₂ : -(W.b : ZMod W.p) * u.c₁ + (-W.a * u.c₁ - W.b * u.c₂) * r +
      (u.c₀ - W.a * u.c₂) * r ^ 2 = 0 := by
    linear_combination r * row₁ - u.c₁ * hr
  simp only [isInvertible, bne_eq_false_iff_eq]
  rw [← Nat.ModEq, ← ZMod.natCast_eq_natCast_iff]
  push_cast
  rw [cast_opposite, cast_opposite]
  linear_combination
    ((u.c₀ - W.a * u.c₂) * (u.c₀ - W.a * u.c₂) - u.c₁ * (-W.a * u.c₁ - W.b * u.c₂)) * hu +
      (u.c₂ * (-W.a * u.c₁ - W.b * u.c₂) - u.c₁ * (u.c₀ - W.a * u.c₂)) * row₁ +
      (u.c₁ * u.c₁ - u.c₂ * (u.c₀ - W.a * u.c₂)) * row₂

omit hr

theorem rightSide_ne_zero_of_rootless (h : W.rootless = true) (x : ZMod W.p) :
    x ^ 3 + W.a * x + W.b ≠ 0 := by
  intro hx
  rw [rootless, W.not_isInvertible hx (W.value_frobenius hx)] at h
  cases h

end Weierstrass

namespace Curve

variable (c : Curve)

instance : Fact c.equation.p.Prime := ⟨c.prime_prime⟩

theorem rootless : c.equation.rootless = true := by
  cases c <;> decide +kernel

instance : c.equation.Regular where
  prime := c.prime_prime
  odd := by cases c <;> decide +kernel
  rightSide_ne_zero := Weierstrass.rightSide_ne_zero_of_rootless _ c.rootless

end Curve

end CurveLock

import CurveLock.Number.SquareRoot
import CurveLock.Proofs.Number.Power
import Mathlib.NumberTheory.LegendreSymbol.Basic
import Mathlib.Tactic.LinearCombination

/-!
# The square test and the square root agree

Modulo an odd prime, `isSquareMod` accepts the squares that are not zero (`isSquareMod_iff`), and
`sqrtMod?` finds a root of every square (`exists_sqrtMod?_iff`).

The square root loop keeps `r² = v·t`, while the order of the error `t` divides a smaller and
smaller power of two and `c` stays of the next greater order (`lowerError_sq`).
-/

namespace CurveLock

/-! ### The odd part -/

theorem oddPart_spec (steps : ℕ) :
    ∀ n, n ≠ 0 → n < 2 ^ steps →
      n = (oddPart steps n).1 * 2 ^ (oddPart steps n).2 ∧ (oddPart steps n).1 % 2 = 1 := by
  induction steps with
  | zero =>
    intro n hn hlt
    rw [pow_zero] at hlt
    omega
  | succ steps ih =>
    intro n hn hlt
    rw [pow_succ] at hlt
    rw [oddPart]
    split_ifs with heven
    · obtain ⟨hprod, hodd⟩ := ih (n / 2) (by omega) (by omega)
      refine ⟨?_, hodd⟩
      rw [pow_succ, ← mul_assoc, ← hprod]
      omega
    · exact ⟨by rw [pow_zero, mul_one], by omega⟩

/-- The root of zero stays zero. -/
theorem lowerError_zero (p k : ℕ) : ∀ c t : ℕ, lowerError p k c t 0 = 0 := by
  induction k with
  | zero => intro c t; rfl
  | succ k ih =>
    intro c t
    rw [lowerError, Nat.zero_mul, Nat.zero_mod, ih, ih, ite_self]

section prime

variable {p : ℕ} [Fact p.Prime]

/-! ### The square test -/

/-- **Euler's criterion.** -/
theorem isSquareMod_iff (hodd : p % 2 = 1) (v : ℕ) :
    isSquareMod p v = true ↔ (v : ZMod p) ≠ 0 ∧ IsSquare (v : ZMod p) := by
  have two_le := (Fact.out : p.Prime).two_le
  have half : (p - 1) / 2 = p / 2 := by omega
  have power : isSquareMod p v = true ↔ (v : ZMod p) ^ (p / 2) = 1 := by
    rw [isSquareMod, beq_iff_eq, half, powMod_eq_one_iff (by omega)]
  rw [power]
  constructor
  · intro h
    have hne : (v : ZMod p) ≠ 0 := by
      intro h0
      rw [h0, zero_pow (by omega)] at h
      exact zero_ne_one h
    exact ⟨hne, (ZMod.euler_criterion p hne).2 h⟩
  · rintro ⟨hne, hsq⟩
    exact (ZMod.euler_criterion p hne).1 hsq

/-! ### The square root -/

theorem lowerError_lt (k : ℕ) :
    ∀ {c t r : ℕ}, r < p → lowerError p k c t r < p := by
  induction k with
  | zero => intro c t r h; exact h
  | succ k ih =>
    intro c t r h
    rw [lowerError]
    split_ifs
    · exact ih h
    · exact ih (Nat.mod_lt _ (Fact.out : p.Prime).pos)

theorem lowerError_sq (k : ℕ) :
    ∀ {c t r : ℕ} {v : ZMod p}, (c : ZMod p) ^ 2 ^ k = -1 → (t : ZMod p) ^ 2 ^ k = 1 →
      (r : ZMod p) ^ 2 = v * t → (lowerError p k c t r : ZMod p) ^ 2 = v := by
  induction k with
  | zero =>
    intro c t r v _ ht hr
    rw [pow_zero, pow_one] at ht
    rw [lowerError, hr, ht, mul_one]
  | succ k ih =>
    intro c t r v hc ht hr
    have hc₂ : ((c * c % p : ℕ) : ZMod p) ^ 2 ^ k = -1 := by
      rw [ZMod.natCast_mod, Nat.cast_mul, ← sq, ← pow_mul, ← pow_succ', hc]
    have test : powMod t (1 <<< k) p = 1 ↔ (t : ZMod p) ^ 2 ^ k = 1 := by
      rw [Nat.one_shiftLeft, powMod_eq_one_iff (Fact.out : p.Prime).one_lt]
    rw [lowerError]
    split_ifs with h
    · exact ih hc₂ (test.1 h) hr
    · -- both the error and the square of `c` are roots of one other than one
      have minus : (t : ZMod p) ^ 2 ^ k = -1 := by
        have hsq : ((t : ZMod p) ^ 2 ^ k) ^ 2 = 1 := by rw [← pow_mul, ← pow_succ, ht]
        exact (sq_eq_one_iff.1 hsq).resolve_left (mt test.2 h)
      refine ih hc₂ ?_ ?_
      · rw [ZMod.natCast_mod, Nat.cast_mul, mul_pow, minus, hc₂, neg_mul_neg, one_mul]
      · rw [ZMod.natCast_mod, ZMod.natCast_mod, Nat.cast_mul, Nat.cast_mul, mul_pow, hr,
          ZMod.natCast_mod, Nat.cast_mul]
        ring

theorem sqrtMod?_eq_some {z v r : ℕ} (h : sqrtMod? p z v = some r) :
    r < p ∧ (r : ZMod p) ^ 2 = v := by
  unfold sqrtMod? at h
  simp only at h
  split_ifs at h with hsq
  obtain rfl := Option.some.inj h
  refine ⟨lowerError_lt _ ?_, ?_⟩
  · rw [powMod_eq]
    exact Nat.mod_lt _ (Fact.out : p.Prime).pos
  · rwa [← Nat.ModEq, ← ZMod.natCast_eq_natCast_iff, Nat.cast_mul, ← sq] at hsq

/-- **Every square has a root.** -/
theorem exists_sqrtMod?_iff (hodd : p % 2 = 1) {z : ℕ} (hz : ¬ IsSquare (z : ZMod p)) (v : ℕ) :
    (∃ r, sqrtMod? p z v = some r) ↔ IsSquare (v : ZMod p) := by
  constructor
  · rintro ⟨r, hr⟩
    exact ⟨r, by rw [← sq, (sqrtMod?_eq_some hr).2]⟩
  · intro hv
    have two_le := (Fact.out : p.Prime).two_le
    have hlt : p - 1 < 2 ^ bitLength p :=
      (Nat.sub_lt (by omega) one_pos).trans (lt_two_pow_bitLength p)
    -- `p - 1 = q·2 ^ (k + 1)`, and the loop takes `k` steps
    obtain ⟨hprod, hq⟩ := oddPart_spec (bitLength p) (p - 1) (by omega) hlt
    rw [sqrtMod?]
    generalize oddPart (bitLength p) (p - 1) = qs at hprod hq ⊢
    obtain ⟨q, s⟩ := qs
    simp only at hprod hq ⊢
    obtain ⟨k, rfl⟩ : ∃ k, s = k + 1 := by
      refine ⟨s - 1, ?_⟩
      rcases s with _ | s
      · rw [pow_zero, mul_one] at hprod
        omega
      · rfl
    rw [Nat.add_sub_cancel]
    have half : p / 2 = q * 2 ^ k := by
      rw [pow_succ, ← mul_assoc] at hprod
      omega
    have root : ((lowerError p k (powMod z q p) (powMod v q p) (powMod v ((q + 1) / 2) p) : ℕ) :
        ZMod p) ^ 2 = v := by
      by_cases h0 : (v : ZMod p) = 0
      · -- the order of the error says nothing here, but the loop starts from zero and stays there
        have hzero : powMod v ((q + 1) / 2) p = 0 := by
          rw [powMod_eq, ← Nat.dvd_iff_mod_eq_zero]
          exact dvd_pow ((ZMod.natCast_eq_zero_iff v p).1 h0) (by omega)
        rw [hzero, lowerError_zero, h0, Nat.cast_zero, sq, mul_zero]
      · have hz0 : (z : ZMod p) ≠ 0 := by
          intro h
          exact hz (h ▸ IsSquare.zero)
        apply lowerError_sq
        · rw [cast_powMod, ← pow_mul, ← half]
          exact (ZMod.pow_div_two_eq_neg_one_or_one p hz0).resolve_left
            (mt (ZMod.euler_criterion p hz0).2 hz)
        · rw [cast_powMod, ← pow_mul, ← half]
          exact (ZMod.euler_criterion p h0).1 hv
        · rw [cast_powMod, cast_powMod, ← pow_mul, ← pow_succ']
          congr 1
          omega
    rw [← Nat.cast_pow, ZMod.natCast_eq_natCast_iff, Nat.ModEq, sq] at root
    exact ⟨_, if_pos root⟩

end prime

end CurveLock

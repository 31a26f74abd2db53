import CurveLock.Number.QuadraticSymbol
import CurveLock.Proofs.Number.SquareRoot
import Mathlib.NumberTheory.LegendreSymbol.JacobiSymbol

/-!
# The quadratic symbol by reciprocity

The procedure that takes factors of two out and swaps the two numbers finds the Jacobi symbol, and
needs no more swaps than the modulus says (`quadraticSymbol_eq_jacobiSym`): what is left of the one
number becomes the modulus of the next step, and is smaller.  Modulo a prime it therefore says the
same as Euler's criterion (`isSquareMod_iff_quadraticSymbol`).
-/

namespace CurveLock

/-- The sign of the factors of two is the symbol of two, once for each. -/
theorem jacobiSym_two_pow {n : ℕ} (hn : n % 2 = 1) (twos : ℕ) :
    jacobiSym 2 n ^ twos = signOfTwos n twos := by
  have symbol : jacobiSym 2 n = if n % 8 = 1 ∨ n % 8 = 7 then 1 else -1 := by
    rw [jacobiSym.at_two (Nat.odd_iff.2 hn), ZMod.χ₈_nat_eq_if_mod_eight, if_neg (by omega)]
  have sign : signOfTwos n twos = if twos % 2 = 0 ∨ n % 8 = 1 ∨ n % 8 = 7 then 1 else -1 := by
    simp only [signOfTwos, Bool.or_eq_true, decide_eq_true_eq, or_assoc]
  rw [symbol, sign]
  by_cases hn8 : n % 8 = 1 ∨ n % 8 = 7
  · rw [if_pos hn8, if_pos (.inr hn8), one_pow]
  · rw [if_neg hn8]
    rcases Nat.even_or_odd twos with htwos | htwos
    · rw [htwos.neg_one_pow, if_pos (.inl (Nat.even_iff.1 htwos))]
    · have hne : twos % 2 ≠ 0 := by rw [Nat.odd_iff.1 htwos]; decide
      rw [htwos.neg_one_pow, if_neg (not_or.2 ⟨hne, hn8⟩)]

/-- The sign of a swap is that of the law of reciprocity. -/
theorem signOfSwap_mul {a n : ℕ} (ha : a % 2 = 1) (hn : n % 2 = 1) :
    signOfSwap n a * jacobiSym n a = jacobiSym a n := by
  rw [← jacobiSym.quadratic_reciprocity_if ha hn, signOfSwap]
  by_cases h : a % 4 = 3 ∧ n % 4 = 3
  · simp [h]
  · simp [h, and_comm]

/-- **Reciprocity finds the symbol**, taking no more swaps than there are numbers below the
modulus. -/
theorem quadraticSymbol_eq_jacobiSym (steps : ℕ) :
    ∀ a n : ℕ, n % 2 = 1 → 1 < n → n ≤ steps → quadraticSymbol steps a n = jacobiSym a n := by
  induction steps with
  | zero => exact fun a n _ hn hsteps => by omega
  | succ steps ih =>
    intro a n hodd hn hsteps
    have reduced : jacobiSym a n = jacobiSym (a % n : ℕ) n := by
      rw [jacobiSym.mod_left, Int.natCast_mod]
    have hlt : a % n < n := Nat.mod_lt a (by omega)
    rw [quadraticSymbol, reduced]
    generalize a % n = r at hlt ⊢
    by_cases hr : r = 0
    · rw [if_pos hr, hr, Nat.cast_zero, jacobiSym.zero_left hn]
    · obtain ⟨hprod, hq⟩ := oddPart_spec (bitLength r) r hr (lt_two_pow_bitLength r)
      simp only [if_neg hr]
      generalize oddPart (bitLength r) r = qs at hprod hq ⊢
      obtain ⟨q, twos⟩ := qs
      simp only at hprod hq ⊢
      have hqr : q ≤ r := hprod ▸ Nat.le_mul_of_pos_right q (Nat.two_pow_pos twos)
      have factored : jacobiSym r n = signOfTwos n twos * jacobiSym q n := by
        rw [hprod, Nat.cast_mul, Nat.cast_pow, jacobiSym.mul_left, jacobiSym.pow_left, Nat.cast_two,
          jacobiSym_two_pow hodd, mul_comm]
      rw [factored]
      split_ifs with hq1
      · rw [hq1, Nat.cast_one, jacobiSym.one_left, mul_one]
      · rw [ih n q hq (by omega) (by omega), mul_assoc, signOfSwap_mul hq hodd]

/-- **The two square tests agree.** -/
theorem isSquareMod_iff_quadraticSymbol {p : ℕ} [Fact p.Prime] (hodd : p % 2 = 1) (v : ℕ) :
    isSquareMod p v = true ↔ quadraticSymbol p v p = 1 := by
  have hp := (Fact.out : p.Prime).one_lt
  rw [isSquareMod_iff hodd, quadraticSymbol_eq_jacobiSym p v p hodd hp le_rfl,
    ← jacobiSym.legendreSym.to_jacobiSym]
  by_cases h0 : (v : ZMod p) = 0
  · have zero : legendreSym p v = 0 := (legendreSym.eq_zero_iff p v).2 (by exact_mod_cast h0)
    rw [zero]
    exact ⟨fun h => absurd h0 h.1, fun h => absurd h zero_ne_one⟩
  · rw [legendreSym.eq_one_iff' p h0]
    exact and_iff_right h0

end CurveLock

import CurveLock.Number.Power
import Mathlib.Algebra.Ring.Parity
import Mathlib.Data.Nat.ModEq
import Mathlib.Data.Nat.Size
import Mathlib.Data.ZMod.Basic
import Mathlib.Tactic.Ring

/-!
# What repeated doubling computes

`doubleAndAdd` only ever doubles what it has and adds one more copy, so whatever these two steps
preserve holds of its result (`doubleAndAdd_induction`).  Powers modulo a number
(`powMod_eq`) and multiples of points are the two uses.
-/

namespace CurveLock

theorem lt_two_pow_bitLength (n : ℕ) : n < 2 ^ bitLength n := by
  unfold bitLength
  split_ifs with h
  · simp [h]
  · exact Nat.lt_log2_self

theorem bitLength_le_iff {n k : ℕ} : bitLength n ≤ k ↔ n < 2 ^ k := by
  constructor
  · intro h
    exact (lt_two_pow_bitLength n).trans_le (Nat.pow_le_pow_right (by decide) h)
  · intro h
    unfold bitLength
    split_ifs with h0
    · exact Nat.zero_le k
    · exact (Nat.log2_lt h0).2 h

theorem lt_bitLength_iff {n k : ℕ} : k < bitLength n ↔ 2 ^ k ≤ n := by
  rw [← not_le, bitLength_le_iff, not_lt]

/-- **Induction over repeated doubling.**  `P i a` says that `a` stands for `i` copies. -/
theorem doubleAndAdd_induction {α : Type} {op : α → α → α} {unit x : α} (P : ℕ → α → Prop)
    (zero : P 0 unit) (double : ∀ i a, P i a → P (2 * i) (op a a))
    (add : ∀ i a, P i a → P (i + 1) (op a x)) (n : ℕ) : P n (doubleAndAdd op unit x n) := by
  have digits : ∀ k m, P (m % 2 ^ k) (doubleAndAdd.go op unit x k m) := by
    intro k
    induction k with
    | zero => intro m; simpa [doubleAndAdd.go, Nat.mod_one] using zero
    | succ k ih =>
      intro m
      have split : m % 2 ^ (k + 1) = 2 * (m / 2 % 2 ^ k) + m % 2 := by
        rw [pow_succ', Nat.mod_mul]; omega
      have hd := double _ _ (ih (m / 2))
      simp only [doubleAndAdd.go]
      split_ifs with hm
      · rw [split, hm]; exact add _ _ hd
      · rw [split, show m % 2 = 0 by omega]; exact hd
  have := digits (bitLength n) n
  rwa [Nat.mod_eq_of_lt (lt_two_pow_bitLength n)] at this

theorem powMod_eq (b e m : ℕ) : powMod b e m = b ^ e % m := by
  refine doubleAndAdd_induction (fun i a => a = b ^ i % m) (by simp) ?_ ?_ e
  · rintro i a rfl
    rw [← Nat.mul_mod, two_mul, pow_add]
  · rintro i a rfl
    rw [← Nat.mul_mod, pow_succ]

theorem cast_powMod (b e m : ℕ) : (powMod b e m : ZMod m) = (b : ZMod m) ^ e := by
  rw [powMod_eq, ZMod.natCast_mod, Nat.cast_pow]

theorem powMod_eq_one_iff {b e m : ℕ} (hm : 1 < m) :
    powMod b e m = 1 ↔ (b : ZMod m) ^ e = 1 := by
  rw [← cast_powMod, ← Nat.cast_one (R := ZMod m), ZMod.natCast_eq_natCast_iff, Nat.ModEq,
    powMod_eq, Nat.mod_mod, Nat.mod_eq_of_lt hm]

end CurveLock

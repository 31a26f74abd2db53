import CurveLock.Datum.Reading
import Mathlib.Algebra.Order.Ring.Int

/-!
# Integers among the values

Truth values and integers compare as the integers that they are.
-/

namespace CurveLock

theorem Scaled.order?_ofInt (m n : ℤ) : (ofInt m).order? (ofInt n) =
    some (if m < n then .lt else if m = n then .eq else .gt) := by
  have hpos : 0 < (one : ℤ) := by decide
  have hlt : m * one < n * one ↔ m < n := mul_lt_mul_iff_left₀ hpos
  have heq : m * one = n * one ↔ m = n := mul_left_inj' hpos.ne'
  simp only [ofInt, order?, hlt, heq]

namespace Datum

theorem number?_of_integer? {d : Datum} {n : ℤ} (h : d.integer? = some n) :
    d.number? = some (.ofInt n) := by
  cases d with
  | bool b | int n =>
    obtain rfl := Option.some.inj h
    rfl
  | _ => cases h

theorem order?_of_integer? {a b : Datum} {m n : ℤ} (ha : a.integer? = some m)
    (hb : b.integer? = some n) :
    order? a b = .ok (some (if m < n then .lt else if m = n then .eq else .gt)) := by
  rw [order?.eq_def, number?_of_integer? ha, number?_of_integer? hb]
  exact congrArg _ (Scaled.order?_ofInt m n)

theorem isAtMost_of_integer? {a b : Datum} {m n : ℤ} (ha : a.integer? = some m)
    (hb : b.integer? = some n) : a.isAtMost b = .ok (decide (m ≤ n)) := by
  rw [isAtMost, order?_of_integer? ha hb]
  rcases lt_trichotomy m n with h | h | h
  · rw [if_pos h, decide_eq_true h.le]
    rfl
  · rw [if_neg h.not_lt, if_pos h, decide_eq_true h.le]
    rfl
  · rw [if_neg h.not_gt, if_neg h.ne', decide_eq_false h.not_ge]
    rfl

theorem isLess_of_integer? {a b : Datum} {m n : ℤ} (ha : a.integer? = some m)
    (hb : b.integer? = some n) : a.isLess b = .ok (decide (m < n)) := by
  rw [isLess, order?_of_integer? ha hb]
  rcases lt_trichotomy m n with h | h | h
  · rw [if_pos h, decide_eq_true h]
    rfl
  · rw [if_neg h.not_lt, if_pos h, decide_eq_false h.not_lt]
    rfl
  · rw [if_neg h.not_gt, if_neg h.ne', decide_eq_false h.not_gt]
    rfl

theorem isAtMost_int (a b : ℤ) : (int a).isAtMost (int b) = .ok (decide (a ≤ b)) :=
  isAtMost_of_integer? rfl rfl

theorem same_int (a b : ℤ) : (int a).same (int b) = decide (a = b) := by
  rw [same.eq_def]
  simp only [number?, Scaled.order?_ofInt]
  rcases lt_trichotomy a b with h | rfl | h
  · simp [h, h.ne]
  · simp
  · simp [h.not_gt, h.ne']

theorem isLess_int (a b : ℤ) : (int a).isLess (int b) = .ok (decide (a < b)) :=
  isLess_of_integer? rfl rfl

end Datum

end CurveLock

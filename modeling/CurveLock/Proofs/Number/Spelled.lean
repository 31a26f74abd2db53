import Mathlib.Data.List.Induction
import Mathlib.Data.Nat.Digits.Defs
import Mathlib.Tactic.Ring

/-!
# Numbers from their digits

`spelled radix` reads a list of digits, the highest first.  Reading is additive in the obvious sense
(`spelled_append`), so that dropping the last digits divides by a power of the radix
(`spelled_take`) and digits may be read in groups, each group as one digit of a larger radix
(`spelled_flatten`).
-/

namespace CurveLock

/-- The number with the given digits, the highest first. -/
def spelled (radix : ℕ) (digits : List ℕ) : ℕ := digits.foldl (fun n d => radix * n + d) 0

variable {radix : ℕ}

@[simp] theorem spelled_nil : spelled radix [] = 0 := rfl

theorem spelled_concat (ds : List ℕ) (d : ℕ) :
    spelled radix (ds ++ [d]) = radix * spelled radix ds + d := by
  rw [spelled, spelled, List.foldl_append]
  rfl

theorem spelled_append (xs ys : List ℕ) :
    spelled radix (xs ++ ys) = spelled radix xs * radix ^ ys.length + spelled radix ys := by
  induction ys using List.reverseRecOn with
  | nil => simp
  | append_singleton ys d ih =>
    rw [← List.append_assoc, spelled_concat, spelled_concat, ih, List.length_append,
      List.length_singleton]
    ring

theorem spelled_cons (d : ℕ) (ds : List ℕ) :
    spelled radix (d :: ds) = d * radix ^ ds.length + spelled radix ds := by
  rw [← List.singleton_append, spelled_append]
  simp [spelled]

theorem spelled_lt {ds : List ℕ} (h : ∀ d ∈ ds, d < radix) :
    spelled radix ds < radix ^ ds.length := by
  induction ds using List.reverseRecOn with
  | nil => exact one_pos
  | append_singleton ds d ih =>
    have hd : d < radix := h d (by simp)
    have hds := ih fun x hx => h x (by simp [hx])
    rw [spelled_concat, List.length_append, List.length_singleton, pow_succ']
    calc radix * spelled radix ds + d < radix * spelled radix ds + radix := by omega
      _ = radix * (spelled radix ds + 1) := by ring
      _ ≤ radix * radix ^ ds.length := Nat.mul_le_mul_left radix hds

/-- **The first digits are a quotient.** -/
theorem spelled_take {ds : List ℕ} (h : ∀ d ∈ ds, d < radix) (n : ℕ) :
    spelled radix (ds.take n) = spelled radix ds / radix ^ (ds.length - n) := by
  have hrest : spelled radix (ds.drop n) < radix ^ (ds.length - n) := by
    rw [← List.length_drop]
    exact spelled_lt fun d hd => h d (List.mem_of_mem_drop hd)
  have whole := @spelled_append radix (ds.take n) (ds.drop n)
  rw [List.take_append_drop, List.length_drop] at whole
  rw [whole, mul_comm, Nat.mul_add_div (by omega), Nat.div_eq_of_lt hrest, add_zero]

/-- **Groups of digits are digits of a larger radix.** -/
theorem spelled_flatten {k : ℕ} {groups : List (List ℕ)} (h : ∀ ds ∈ groups, ds.length = k) :
    spelled radix groups.flatten = spelled (radix ^ k) (groups.map (spelled radix)) := by
  induction groups using List.reverseRecOn with
  | nil => rfl
  | append_singleton groups ds ih =>
    have hds : ds.length = k := h ds (by simp)
    have hgroups := ih fun x hx => h x (by simp [hx])
    rw [List.flatten_append, List.flatten_singleton, spelled_append, hgroups, hds, List.map_append,
      List.map_singleton, spelled_concat, mul_comm]

theorem spelled_eq_ofDigits (ds : List ℕ) : spelled radix ds = Nat.ofDigits radix ds.reverse := by
  rw [Nat.ofDigits_eq_foldr, List.foldr_reverse, spelled]
  simp only [Nat.cast_id, Nat.add_comm]

/-- Digits can be read off again when their number is known. -/
theorem eq_of_spelled_eq (hradix : 1 < radix) {xs ys : List ℕ} (hlength : xs.length = ys.length)
    (hxs : ∀ d ∈ xs, d < radix) (hys : ∀ d ∈ ys, d < radix)
    (h : spelled radix xs = spelled radix ys) : xs = ys := by
  rw [spelled_eq_ofDigits, spelled_eq_ofDigits] at h
  refine List.reverse_inj.1 (Nat.ofDigits_inj_of_len_eq hradix ?_ ?_ ?_ h)
  · rw [List.length_reverse, List.length_reverse, hlength]
  · exact fun d hd => hxs d (List.mem_reverse.1 hd)
  · exact fun d hd => hys d (List.mem_reverse.1 hd)

end CurveLock

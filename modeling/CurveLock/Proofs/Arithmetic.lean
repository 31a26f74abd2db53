import CurveLock.Arithmetic
import CurveLock.Proofs.Number.Residue
import CurveLock.Proofs.Scratch

/-!
# Counted modular arithmetic

The counted operations return what the operations on residues do, and each of them counts one step
and changes nothing else, whether it returns or fails.  Inverses, powers with exponents of either
sign and products fit together for moduli of either sign (`Metered.inverses_and_powers`).
-/

namespace CurveLock

namespace Metered

open Residue

variable {m : ℤ} (s : Scratch)

/-! ### What is returned -/

theorem result_inverseMod_eq_ok_iff {v r : ℤ} :
    (inverseMod v m).result s = .ok r ↔ InRange m r ∧ v * r ≡ 1 [ZMOD m] := by
  rw [inverseMod, inverseModAs, result_bind (run_tick s), ← Residue.inverse?_eq_some_iff]
  rcases Residue.inverse? v m with _ | k
  · exact iff_of_false (fun h => nomatch h) fun h => nomatch h
  · simp only [result_pure, Except.ok.injEq, Option.some.injEq]

theorem result_powMod_eq_ok_iff {v e q : ℤ} :
    (powMod v e m).result s = .ok q ↔ InRange m q ∧ IsPower v m e q := by
  rw [powMod, result_bind (run_tick s), ← power_eq_ok_iff]
  rcases power v e m with f | k
  · exact iff_of_false (fun h => nomatch h) fun h => nomatch h
  · simp only [result_pure, Except.ok.injEq]

theorem result_mulMod (a b : ℤ) (hm : m ≠ 0) :
    (mulMod a b m).result s = .ok (reduce (a * b) m) := by
  rw [mulMod, result_bind (run_tick s), if_neg hm]
  rfl

/-! ### What is counted -/

theorem after_inverseMod (v m : ℤ) :
    (inverseMod v m).after s = { s with opCount := s.opCount + 1 } := by
  rw [inverseMod, inverseModAs, after, EStateM.run_bind, run_tick]
  cases Residue.inverse? v m <;> rfl

theorem after_powMod (v e m : ℤ) :
    (powMod v e m).after s = { s with opCount := s.opCount + 1 } := by
  rw [powMod, after, EStateM.run_bind, run_tick]
  cases Residue.power v e m <;> rfl

theorem after_mulMod (a b m : ℤ) :
    (mulMod a b m).after s = { s with opCount := s.opCount + 1 } := by
  rw [mulMod, after, EStateM.run_bind, run_tick]
  by_cases hm : m = 0
  · simp only [hm, if_true]
    rfl
  · simp only [hm, if_false]
    rfl

/-! ### How the operations fit together -/

theorem exists_result_inverseMod_iff {v : ℤ} :
    (∃ r, (inverseMod v m).result s = .ok r) ↔ m ≠ 0 ∧ Int.gcd v m = 1 := by
  simp only [result_inverseMod_eq_ok_iff, ← Residue.inverse?_eq_some_iff, exists_inverse?_iff]

theorem exists_result_powMod_iff {v e : ℤ} :
    (∃ q, (powMod v e m).result s = .ok q) ↔ m ≠ 0 ∧ (0 ≤ e ∨ Int.gcd v m = 1) := by
  simp only [result_powMod_eq_ok_iff, ← power_eq_ok_iff, exists_power_iff]

/-- **A negative exponent raises the inverse.** -/
theorem exists_result_powMod_neg {v r e : ℤ} (he : 0 < e) (s' : Scratch)
    (hr : (inverseMod v m).result s' = .ok r) :
    ∃ q, (powMod v (-e) m).result s = .ok q ∧ (powMod r e m).result s' = .ok q := by
  obtain ⟨hrange, hmul⟩ := (result_inverseMod_eq_ok_iff s').1 hr
  obtain ⟨q, hq⟩ :=
    (exists_result_powMod_iff s' (v := r)).2 ⟨hrange.modulus_ne_zero, Or.inl he.le⟩
  refine ⟨q, ?_, hq⟩
  rw [result_powMod_eq_ok_iff] at hq ⊢
  rw [isPower_iff_of_mul_modEq_one hmul (by omega), neg_neg]
  exact hq

/-- **The power with the sum of two exponents is the product of the powers.** -/
theorem exists_result_powMod_add {v e f : ℤ} (hm : m ≠ 0)
    (h : (0 ≤ e ∧ 0 ≤ f) ∨ Int.gcd v m = 1) :
    ∃ a b q, (powMod v e m).result s = .ok a ∧ (powMod v f m).result s = .ok b ∧
      (mulMod a b m).result s = .ok q ∧ (powMod v (e + f) m).result s = .ok q := by
  obtain ⟨a, ha⟩ := (exists_result_powMod_iff s (v := v)).2 ⟨hm, h.imp_left And.left⟩
  obtain ⟨b, hb⟩ := (exists_result_powMod_iff s (v := v)).2 ⟨hm, h.imp_left And.right⟩
  refine ⟨a, b, _, ha, hb, result_mulMod s a b hm, ?_⟩
  rw [result_powMod_eq_ok_iff] at ha hb ⊢
  exact ⟨inRange_reduce _ hm, (ha.2.add h hb.2).congr (reduce_modEq _ m)⟩

/-- **Inverses, powers and products fit together.**  For a modulus of either sign, an integer has an
inverse exactly when it has no common factor with the modulus, and the inverse is the only residue
whose product with it is one.  A power is the only residue that is one.  With a negative exponent
there is one where there is an inverse, and it is the power of the inverse.  The power with the sum
of two exponents is the product of the two powers, if no exponent is negative or there is an
inverse.  Each operation counts one step and changes nothing else, also where it fails. -/
theorem inverses_and_powers (v m : ℤ) :
    (∀ (r : ℤ) (s : Scratch),
      (inverseMod v m).result s = .ok r ↔ InRange m r ∧ v * r ≡ 1 [ZMOD m]) ∧
    (∀ s : Scratch, (∃ r, (inverseMod v m).result s = .ok r) ↔ m ≠ 0 ∧ Int.gcd v m = 1) ∧
    (∀ (e q : ℤ) (s : Scratch),
      (powMod v e m).result s = .ok q ↔ InRange m q ∧ IsPower v m e q) ∧
    (∀ e : ℤ, 0 < e → ∀ s s' : Scratch,
      ((∃ q, (powMod v (-e) m).result s = .ok q) ↔
        ∃ r, (inverseMod v m).result s' = .ok r) ∧
      ∀ r, (inverseMod v m).result s' = .ok r →
        ∃ q, (powMod v (-e) m).result s = .ok q ∧ (powMod r e m).result s' = .ok q) ∧
    (m ≠ 0 → ∀ e f : ℤ, (0 ≤ e ∧ 0 ≤ f) ∨ Int.gcd v m = 1 → ∀ s : Scratch, ∃ a b q,
      (powMod v e m).result s = .ok a ∧ (powMod v f m).result s = .ok b ∧
      (mulMod a b m).result s = .ok q ∧ (powMod v (e + f) m).result s = .ok q) ∧
    ∀ (s : Scratch) (a e : ℤ),
      (inverseMod v m).after s = { s with opCount := s.opCount + 1 } ∧
      (powMod v e m).after s = { s with opCount := s.opCount + 1 } ∧
      (mulMod v a m).after s = { s with opCount := s.opCount + 1 } := by
  refine ⟨fun r s => result_inverseMod_eq_ok_iff s, fun s => exists_result_inverseMod_iff s,
    fun e q s => result_powMod_eq_ok_iff s, fun e he s s' => ⟨?_, fun r hr => ?_⟩,
    fun hm e f h s => exists_result_powMod_add s hm h, fun s a e => ?_⟩
  · rw [exists_result_powMod_iff, exists_result_inverseMod_iff]
    exact and_congr_right fun _ => or_iff_right (by omega)
  · exact exists_result_powMod_neg s he s' hr
  · exact ⟨after_inverseMod s v m, after_powMod s v e m, after_mulMod s v a m⟩

theorem inverses_and_powers_negative :
    (inverseMod 3 (-7)).result {} = .ok (-2) ∧ (inverseMod 5 (-1)).result {} = .ok 0 ∧
    (∃ q, (powMod 3 (-4) (-7)).result {} = .ok q ∧ (powMod (-2) 4 (-7)).result {} = .ok q) ∧
    (∃ a b q, (powMod 3 (-4) (-7)).result {} = .ok a ∧ (powMod 3 9 (-7)).result {} = .ok b ∧
      (mulMod a b (-7)).result {} = .ok q ∧ (powMod 3 5 (-7)).result {} = .ok q) ∧
    (¬ ∃ q, (powMod 6 (-1) 4).result {} = .ok q) ∧
    (inverseMod 6 0).after {} = { opCount := 1 } := by
  obtain ⟨hinverse, -, -, hneg, hadd, -⟩ := inverses_and_powers 3 (-7)
  obtain ⟨hone, -⟩ := inverses_and_powers 5 (-1)
  obtain ⟨-, hexists, -, hnone, -⟩ := inverses_and_powers 6 4
  obtain ⟨-, -, -, -, -, hcount⟩ := inverses_and_powers 6 0
  have h3 : (inverseMod 3 (-7)).result {} = .ok (-2) :=
    (hinverse (-2) {}).2 ⟨by decide, by decide⟩
  refine ⟨h3, (hone 0 {}).2 ⟨by decide, by decide⟩, (hneg 4 (by decide) {} {}).2 (-2) h3,
    hadd (by decide) (-4) 9 (Or.inr (by decide)) {}, ?_, (hcount {} 0 0).1⟩
  rw [(hnone 1 (by decide) {} {}).1, hexists]
  decide

end Metered

end CurveLock

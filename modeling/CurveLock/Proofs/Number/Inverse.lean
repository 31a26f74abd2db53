import CurveLock.Number.Inverse
import Mathlib.Data.Int.ModEq
import Mathlib.Algebra.Field.ZMod
import Mathlib.Tactic.Linarith
import Mathlib.Tactic.Ring

/-!
# Euclid's algorithm finds inverses

Two facts survive every step of `bezout`: the two remainders keep their greatest common divisor, and
each remainder is its factor times `v`, modulo `m`.  So `inverse?` answers exactly for the numbers
that have an inverse (`inverse?_eq_some_iff`, `inverse?_eq_none_iff`).
-/

namespace CurveLock

theorem bezout_fst {steps r₀ r₁ : ℕ} (s₀ s₁ : ℤ) (h : r₁ ≤ steps) :
    (bezout steps r₀ r₁ s₀ s₁).1 = r₀.gcd r₁ := by
  induction steps generalizing r₀ r₁ s₀ s₁ with
  | zero => simp [bezout, Nat.le_zero.1 h]
  | succ steps ih =>
    unfold bezout
    split_ifs with h0
    · simp [h0]
    · have shrunk : r₀ % r₁ < r₁ := Nat.mod_lt _ (Nat.pos_of_ne_zero h0)
      rw [ih _ _ (by omega), Nat.gcd_comm, ← Nat.gcd_rec, Nat.gcd_comm]

/-- Every remainder stays its factor times `v`. -/
theorem bezout_modEq {v m : ℤ} (steps : ℕ) {r₀ r₁ : ℕ} {s₀ s₁ : ℤ} (h₀ : v * s₀ ≡ r₀ [ZMOD m])
    (h₁ : v * s₁ ≡ r₁ [ZMOD m]) :
    v * (bezout steps r₀ r₁ s₀ s₁).2 ≡ (bezout steps r₀ r₁ s₀ s₁).1 [ZMOD m] := by
  induction steps generalizing r₀ r₁ s₀ s₁ with
  | zero => exact h₀
  | succ steps ih =>
    unfold bezout
    split_ifs
    · exact h₀
    · refine ih h₁ ?_
      have rest : ((r₀ % r₁ : ℕ) : ℤ) = r₀ - (r₀ / r₁ : ℕ) * r₁ := by
        push_cast
        linarith [Int.mul_ediv_add_emod r₀ r₁]
      rw [rest]
      calc v * (s₀ - (r₀ / r₁ : ℕ) * s₁) = v * s₀ - (r₀ / r₁ : ℕ) * (v * s₁) := by ring
        _ ≡ r₀ - (r₀ / r₁ : ℕ) * r₁ [ZMOD m] := h₀.sub (h₁.mul_left _)

theorem bezout_mod_fst (v m : ℕ) (hm : 0 < m) : (bezout m m (v % m) 0 1).1 = m.gcd v := by
  rw [bezout_fst _ _ (Nat.mod_lt v hm).le, Nat.gcd_comm, ← Nat.gcd_rec]

theorem bezout_mod_modEq (v m : ℕ) :
    v * (bezout m m (v % m) 0 1).2 ≡ (bezout m m (v % m) 0 1).1 [ZMOD m] := by
  refine bezout_modEq m ?_ ?_
  · simpa using (Int.modEq_zero_iff_dvd.2 (dvd_refl (m : ℤ))).symm
  · simpa using (Int.mod_modEq (v : ℤ) m).symm

theorem exists_inverse?_eq_some {v m : ℕ} (hm : 0 < m) (hv : m.Coprime v) :
    ∃ r, inverse? v m = some r ∧ r < m ∧ v * r ≡ 1 [MOD m] := by
  have gcd := bezout_mod_fst v m hm
  have congr := bezout_mod_modEq v m
  rw [hv.gcd_eq_one] at gcd
  rcases hb : bezout m m (v % m) 0 1 with ⟨g, s⟩
  simp only [hb] at gcd congr
  subst gcd
  have reduced : ((s % m).toNat : ℤ) = s % m :=
    Int.toNat_of_nonneg (Int.emod_nonneg s (by omega))
  refine ⟨(s % m).toNat, by simp [inverse?, hb, hm.ne'], ?_, ?_⟩
  · have := Int.emod_lt_of_pos s (by omega : (0 : ℤ) < m)
    omega
  · rw [← Int.natCast_modEq_iff]
    push_cast
    rw [reduced]
    exact ((Int.mod_modEq s m).mul_left _).trans congr

theorem inverse?_eq_none {v m : ℕ} (h : ¬ (0 < m ∧ m.Coprime v)) : inverse? v m = none := by
  rcases Nat.eq_zero_or_pos m with rfl | hm
  · simp [inverse?, bezout]
  · have gcd := bezout_mod_fst v m hm
    have : (bezout m m (v % m) 0 1).1 ≠ 1 := fun h1 => h ⟨hm, gcd.symm.trans h1⟩
    unfold inverse?
    split
    · rename_i s hs
      exact absurd (congrArg Prod.fst hs) this
    · rfl

theorem coprime_of_mul_modEq_one {v r m : ℕ} (h : v * r ≡ 1 [MOD m]) : m.Coprime v := by
  have unit : (v * r).Coprime m := by
    rw [Nat.Coprime, h.gcd_eq, Nat.gcd_one_left]
  exact unit.coprime_mul_right.symm

/-- **The inverse is the residue whose product with `v` is one**, and it is found when there is
one. -/
theorem inverse?_eq_some_iff {v m r : ℕ} :
    inverse? v m = some r ↔ r < m ∧ v * r ≡ 1 [MOD m] := by
  constructor
  · intro h
    by_cases hv : 0 < m ∧ m.Coprime v
    · obtain ⟨r', hr', hlt, hmul⟩ := exists_inverse?_eq_some hv.1 hv.2
      obtain rfl : r' = r := Option.some.inj (hr'.symm.trans h)
      exact ⟨hlt, hmul⟩
    · rw [inverse?_eq_none hv] at h
      cases h
  · rintro ⟨hlt, hmul⟩
    have hv := coprime_of_mul_modEq_one hmul
    obtain ⟨r', hr', hlt', hmul'⟩ := exists_inverse?_eq_some (by omega) hv
    have : r ≡ r' [MOD m] := Nat.ModEq.cancel_left_of_coprime hv (hmul.trans hmul'.symm)
    rw [hr', Nat.ModEq.eq_of_lt_of_lt this hlt hlt']

theorem inverse?_eq_none_iff {v m : ℕ} : inverse? v m = none ↔ m = 0 ∨ ¬ m.Coprime v := by
  constructor
  · intro h
    by_contra hv
    push Not at hv
    obtain ⟨r, hr, -⟩ := exists_inverse?_eq_some (Nat.pos_of_ne_zero hv.1) hv.2
    rw [h] at hr
    cases hr
  · intro h
    refine inverse?_eq_none fun hv => ?_
    rcases h with h | h
    · exact absurd h hv.1.ne'
    · exact h hv.2

namespace Residue

/-- **The same for moduli of either sign.** -/
theorem inverse?_eq_none_iff {v m : ℤ} : inverse? v m = none ↔ m = 0 ∨ Int.gcd v m ≠ 1 := by
  have hgcd (hm : m ≠ 0) : m.natAbs.gcd (v % m.natAbs).toNat = Int.gcd v m := by
    have hnonneg : 0 ≤ v % (m.natAbs : ℤ) := Int.emod_nonneg v (by omega)
    calc m.natAbs.gcd (v % m.natAbs).toNat
        = Int.gcd (v % m.natAbs) m.natAbs := by
          rw [← Int.natAbs_of_nonneg hnonneg, Nat.gcd_comm]
          rfl
      _ = Int.gcd v m := by rw [Int.gcd_emod, Int.gcd, Int.natAbs_natCast, Int.gcd]
  have hmap : inverse? v m = none ↔ CurveLock.inverse? (v % m.natAbs).toNat m.natAbs = none := by
    rw [inverse?]
    cases CurveLock.inverse? (v % m.natAbs).toNat m.natAbs <;> simp
  rw [hmap, CurveLock.inverse?_eq_none_iff, Int.natAbs_eq_zero]
  refine or_congr_right' fun hm => ?_
  rw [Nat.Coprime, hgcd hm]

end Residue

/-- Modulo a prime the inverse is the one of the field; zero, which has none, is its own. -/
theorem cast_inverse?_getD {p : ℕ} [Fact p.Prime] (v : ℕ) :
    (((inverse? v p).getD 0 : ℕ) : ZMod p) = (v : ZMod p)⁻¹ := by
  have hp : 0 < p := (Fact.out : p.Prime).pos
  by_cases hv : p.Coprime v
  · obtain ⟨r, hr, -, hmul⟩ := exists_inverse?_eq_some hp hv
    rw [hr, Option.getD_some]
    refine eq_inv_of_mul_eq_one_right (?_ : (v : ZMod p) * r = 1)
    rw [← Nat.cast_mul, (ZMod.natCast_eq_natCast_iff _ _ _).2 hmul, Nat.cast_one]
  · have h0 : (v : ZMod p) = 0 := by
      rw [ZMod.natCast_eq_zero_iff]
      exact ((Fact.out : p.Prime).dvd_iff_not_coprime).2 hv
    rw [inverse?_eq_none (fun h => hv h.2), Option.getD_none, h0, inv_zero, Nat.cast_zero]

end CurveLock

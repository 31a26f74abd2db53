import CurveLock.Proofs.Number.Inverse
import CurveLock.Proofs.Number.Power
import Mathlib.Data.ZMod.Units

/-!
# Residues, inverses and powers for moduli of either sign

The residues of a modulus `m` are the integers from zero on and below `m`, or above `m` and up to
zero (`Residue.InRange`).  Each of the operations on them has exactly one result that it can have,
and has it if there is one: the reduced integer (`Residue.reduce_eq_iff`), the inverse
(`Residue.inverse?_eq_some_iff`), and the power with a positive or negative exponent
(`Residue.power_eq_ok_iff`).
-/

namespace CurveLock

namespace Residue

variable {m : ℤ}

/-! ### Residues -/

/-- The residues of a modulus, which have its sign; modulus zero has none. -/
def InRange (m r : ℤ) : Prop := (0 ≤ r ∧ r < m) ∨ (m < r ∧ r ≤ 0)

instance (m r : ℤ) : Decidable (InRange m r) := inferInstanceAs (Decidable (_ ∨ _))

theorem InRange.modulus_ne_zero {r : ℤ} (h : InRange m r) : m ≠ 0 := by
  rcases h with h | h <;> omega

theorem InRange.eq_of_modEq {r r' : ℤ} (h : InRange m r) (h' : InRange m r')
    (hmod : r ≡ r' [ZMOD m]) : r = r' := by
  have hdist : |r' - r| < |m| := by
    rcases h with h | h <;> rcases h' with h' | h' <;> grind
  have hzero := Int.eq_zero_of_abs_lt_dvd ((abs_dvd m _).2 hmod.dvd) hdist
  omega

theorem inRange_reduce (x : ℤ) (hm : m ≠ 0) : InRange m (reduce x m) := by
  rcases lt_or_gt_of_ne hm with hneg | hpos
  · right
    have hlt := Int.fmod_lt_of_pos (-x) (neg_pos.2 hneg)
    have hnonneg := Int.fmod_nonneg_of_pos (-x) (neg_pos.2 hneg)
    rw [Int.neg_fmod_neg] at hlt hnonneg
    rw [reduce]
    omega
  · exact Or.inl ⟨Int.fmod_nonneg_of_pos x hpos, Int.fmod_lt_of_pos x hpos⟩

theorem reduce_modEq (x m : ℤ) : reduce x m ≡ x [ZMOD m] := by
  rw [Int.modEq_iff_dvd]
  exact ⟨x.fdiv m, by rw [reduce]; linarith [Int.fmod_add_mul_fdiv x m]⟩

/-- **The reduced integer is the residue that it is congruent to.** -/
theorem reduce_eq_iff {x r : ℤ} (hm : m ≠ 0) :
    reduce x m = r ↔ InRange m r ∧ r ≡ x [ZMOD m] := by
  constructor
  · rintro rfl
    exact ⟨inRange_reduce x hm, reduce_modEq x m⟩
  · rintro ⟨hrange, hmod⟩
    exact (inRange_reduce x hm).eq_of_modEq hrange ((reduce_modEq x m).trans hmod.symm)

theorem reduce_congr {x y : ℤ} (hm : m ≠ 0) (h : x ≡ y [ZMOD m]) : reduce x m = reduce y m :=
  (reduce_eq_iff hm).2 ⟨inRange_reduce y hm, (reduce_modEq y m).trans h.symm⟩

/-! ### Inverses -/

theorem inverse?_eq_map (v m : ℤ) : inverse? v m =
    (CurveLock.inverse? (v % m.natAbs).toNat m.natAbs).map fun k : ℕ => reduce k m := by
  rw [inverse?]
  cases CurveLock.inverse? (v % m.natAbs).toNat m.natAbs <;> rfl

theorem isCoprime_of_mul_modEq_one {a b : ℤ} (h : a * b ≡ 1 [ZMOD m]) : IsCoprime a m := by
  obtain ⟨k, hk⟩ := h.dvd
  exact ⟨b, k, by linarith⟩

theorem toNat_emod_natAbs_modEq (v : ℤ) (hm : m ≠ 0) :
    ((v % m.natAbs).toNat : ℤ) ≡ v [ZMOD m] := by
  rw [Int.toNat_of_nonneg (Int.emod_nonneg v (by omega))]
  exact Int.modEq_natAbs.1 (Int.mod_modEq v m.natAbs)

/-- **The inverse is the residue whose product with `v` is one**, and it is found when there is
one. -/
theorem inverse?_eq_some_iff {v r : ℤ} :
    inverse? v m = some r ↔ InRange m r ∧ v * r ≡ 1 [ZMOD m] := by
  have sound {r : ℤ} (h : inverse? v m = some r) : InRange m r ∧ v * r ≡ 1 [ZMOD m] := by
    rw [inverse?_eq_map] at h
    obtain ⟨k, hk, rfl⟩ := Option.map_eq_some_iff.1 h
    obtain ⟨hlt, hmul⟩ := CurveLock.inverse?_eq_some_iff.1 hk
    have hm : m ≠ 0 := by
      rintro rfl
      exact absurd hlt (Nat.not_lt_zero k)
    refine ⟨inRange_reduce _ hm, ?_⟩
    calc v * reduce k m
        ≡ (v % m.natAbs).toNat * k [ZMOD m] :=
          (toNat_emod_natAbs_modEq v hm).symm.mul (reduce_modEq k m)
      _ ≡ 1 [ZMOD m] := Int.modEq_natAbs.1 (by exact_mod_cast Int.natCast_modEq_iff.2 hmul)
  refine ⟨sound, fun ⟨hrange, hmul⟩ => ?_⟩
  have hgcd := Int.isCoprime_iff_gcd_eq_one.1 (isCoprime_of_mul_modEq_one hmul)
  rcases hinv : inverse? v m with _ | r'
  · exact absurd hgcd ((inverse?_eq_none_iff.1 hinv).resolve_left hrange.modulus_ne_zero)
  · obtain ⟨hrange', hmul'⟩ := sound hinv
    -- both are the product of the other with the two inverses of `v`
    have hmod : r' ≡ r [ZMOD m] := by
      calc r' = r' * 1 := (mul_one r').symm
        _ ≡ r' * (v * r) [ZMOD m] := (hmul.mul_left r').symm
        _ = v * r' * r := by ring
        _ ≡ 1 * r [ZMOD m] := hmul'.mul_right r
        _ = r := one_mul r
    rw [hrange'.eq_of_modEq hrange hmod]

/-- Between natural numbers it is the inverse that is a natural number. -/
theorem inverse?_natCast {v m r : ℕ} (h : CurveLock.inverse? v m = some r) :
    inverse? (v : ℤ) m = some (r : ℤ) := by
  obtain ⟨hlt, hmul⟩ := CurveLock.inverse?_eq_some_iff.1 h
  refine inverse?_eq_some_iff.2 ⟨Or.inl ⟨Int.natCast_nonneg r, by exact_mod_cast hlt⟩, ?_⟩
  exact_mod_cast Int.natCast_modEq_iff.2 hmul

theorem exists_inverse?_iff {v : ℤ} :
    (∃ r, inverse? v m = some r) ↔ m ≠ 0 ∧ Int.gcd v m = 1 := by
  rw [← Option.ne_none_iff_exists', Ne, inverse?_eq_none_iff, not_or, not_not]

/-! ### Powers -/

/-- The integer `q` is a power of `v` modulo `m`: congruent to the product of as many factors as the
exponent says, or, where it is negative, inverse to it. -/
def IsPower (v m e q : ℤ) : Prop :=
  if 0 ≤ e then q ≡ v ^ e.natAbs [ZMOD m] else q * v ^ e.natAbs ≡ 1 [ZMOD m]

theorem isPower_of_nonneg {v e q : ℤ} (he : 0 ≤ e) :
    IsPower v m e q ↔ q ≡ v ^ e.natAbs [ZMOD m] := by
  rw [IsPower, if_pos he]

theorem isPower_of_neg {v e q : ℤ} (he : e < 0) :
    IsPower v m e q ↔ q * v ^ e.natAbs ≡ 1 [ZMOD m] := by
  rw [IsPower, if_neg he.not_ge]

/-- Only an invertible integer has powers with negative exponents. -/
theorem gcd_eq_one_of_isPower {v e q : ℤ} (he : e < 0) (h : IsPower v m e q) :
    Int.gcd v m = 1 := by
  rw [isPower_of_neg he, mul_comm] at h
  exact Int.isCoprime_iff_gcd_eq_one.1
    ((IsCoprime.pow_left_iff (by omega)).1 (isCoprime_of_mul_modEq_one h))

theorem IsPower.congr {v e q q' : ℤ} (h : IsPower v m e q) (hq : q' ≡ q [ZMOD m]) :
    IsPower v m e q' := by
  rcases le_or_gt 0 e with he | he
  · rw [isPower_of_nonneg he] at h ⊢
    exact hq.trans h
  · rw [isPower_of_neg he] at h ⊢
    exact (hq.mul_right _).trans h

/-- Powers of an invertible integer are those of the unit that it is. -/
theorem isPower_iff_cast_eq {v e q : ℤ} {u : (ZMod m.natAbs)ˣ}
    (hu : (u : ZMod m.natAbs) = v) :
    IsPower v m e q ↔ (q : ZMod m.natAbs) = (u ^ e : (ZMod m.natAbs)ˣ) := by
  rcases le_or_gt 0 e with he | he
  · obtain ⟨k, rfl⟩ := Int.eq_ofNat_of_zero_le he
    rw [isPower_of_nonneg he, Int.natAbs_natCast, zpow_natCast, Units.val_pow_eq_pow_val, hu,
      ← Int.modEq_natAbs, ← ZMod.intCast_eq_intCast_iff, Int.cast_pow]
  · obtain ⟨k, rfl⟩ : ∃ k : ℕ, e = -k := ⟨e.natAbs, by omega⟩
    rw [isPower_of_neg he, Int.natAbs_neg, Int.natAbs_natCast, zpow_neg, zpow_natCast,
      ← Units.mul_eq_one_iff_eq_inv, Units.val_pow_eq_pow_val, hu, ← Int.modEq_natAbs,
      ← ZMod.intCast_eq_intCast_iff, Int.cast_mul, Int.cast_pow, Int.cast_one]

theorem exists_unit {v : ℤ} (hv : Int.gcd v m = 1) :
    ∃ u : (ZMod m.natAbs)ˣ, (u : ZMod m.natAbs) = v := by
  have hcoprime : IsCoprime v (m.natAbs : ℤ) := by
    rw [Int.isCoprime_iff_gcd_eq_one, Int.gcd, Int.natAbs_natCast]
    exact hv
  exact ⟨ZMod.unitOfIsCoprime v hcoprime, ZMod.coe_unitOfIsCoprime v hcoprime⟩

/-- **Exponents are added by multiplying powers**, negative ones too where the base is
invertible. -/
theorem IsPower.add {v e f a b : ℤ} (h : (0 ≤ e ∧ 0 ≤ f) ∨ Int.gcd v m = 1)
    (ha : IsPower v m e a) (hb : IsPower v m f b) : IsPower v m (e + f) (a * b) := by
  rcases h with ⟨he, hf⟩ | hv
  · rw [isPower_of_nonneg he] at ha
    rw [isPower_of_nonneg hf] at hb
    rw [isPower_of_nonneg (by omega), Int.natAbs_add_of_nonneg he hf, pow_add]
    exact ha.mul hb
  · obtain ⟨u, hu⟩ := exists_unit hv
    rw [isPower_iff_cast_eq hu] at ha hb ⊢
    rw [Int.cast_mul, ha, hb, zpow_add, Units.val_mul]

/-- A power of the inverse is one with the opposite exponent. -/
theorem isPower_iff_of_mul_modEq_one {v r e q : ℤ} (h : v * r ≡ 1 [ZMOD m]) (he : e < 0) :
    IsPower v m e q ↔ IsPower r m (-e) q := by
  rw [isPower_of_neg he, isPower_of_nonneg (by omega), Int.natAbs_neg]
  have hone : v ^ e.natAbs * r ^ e.natAbs ≡ 1 [ZMOD m] := by
    rw [← mul_pow]
    simpa using h.pow e.natAbs
  constructor
  · intro hq
    calc q = q * 1 := (mul_one q).symm
      _ ≡ q * (v ^ e.natAbs * r ^ e.natAbs) [ZMOD m] := (hone.mul_left q).symm
      _ = q * v ^ e.natAbs * r ^ e.natAbs := by ring
      _ ≡ 1 * r ^ e.natAbs [ZMOD m] := hq.mul_right _
      _ = r ^ e.natAbs := one_mul _
  · intro hq
    calc q * v ^ e.natAbs ≡ r ^ e.natAbs * v ^ e.natAbs [ZMOD m] := hq.mul_right _
      _ = v ^ e.natAbs * r ^ e.natAbs := mul_comm _ _
      _ ≡ 1 [ZMOD m] := hone

theorem reduce_powMod (hm : m ≠ 0) {k : ℕ} {x : ℤ} (h : (k : ℤ) ≡ x [ZMOD m]) (n : ℕ) :
    reduce (powMod k n m.natAbs) m = reduce (x ^ n) m := by
  refine reduce_congr hm ?_
  rw [powMod_eq, Int.natCast_mod, Nat.cast_pow]
  exact (Int.modEq_natAbs.1 (Int.mod_modEq _ _)).trans (h.pow n)

theorem reduce_of_natAbs_eq_one (hm : m.natAbs = 1) (x : ℤ) : reduce x m = 0 := by
  have hrange := inRange_reduce x (show m ≠ 0 by omega)
  rcases hrange with h | h <;> omega

theorem power_of_nonneg (hm : m ≠ 0) (b : ℤ) {e : ℤ} (he : 0 ≤ e) :
    power b e m = .ok (reduce (b ^ e.natAbs) m) := by
  rw [power, if_neg hm]
  split_ifs with hone hneg
  · rw [reduce_of_natAbs_eq_one hone]
  · omega
  · rw [reduce_powMod hm (toNat_emod_natAbs_modEq b hm)]

theorem power_of_inverse? {b r e : ℤ} (hr : inverse? b m = some r) (he : e < 0) :
    power b e m = .ok (reduce (r ^ e.natAbs) m) := by
  have hm := (inverse?_eq_some_iff.1 hr).1.modulus_ne_zero
  rw [inverse?_eq_map] at hr
  obtain ⟨k, hk, rfl⟩ := Option.map_eq_some_iff.1 hr
  rw [power, if_neg hm]
  split_ifs with hone
  · rw [reduce_of_natAbs_eq_one hone]
  · simp only [hk]
    rw [reduce_powMod hm (reduce_modEq k m).symm]

theorem power_of_not_invertible {b e : ℤ} (hm : m ≠ 0) (hb : inverse? b m = none) (he : e < 0) :
    power b e m = .error .notInvertible := by
  have hgcd := (inverse?_eq_none_iff.1 hb).resolve_left hm
  rw [inverse?_eq_map, Option.map_eq_none_iff] at hb
  rw [power, if_neg hm]
  split_ifs with hone
  · refine absurd ?_ hgcd
    rw [Int.gcd, hone, Nat.gcd_one_right]
  · simp only [hb]

/-- **A power is found when there is one**, and it is the residue that is one. -/
theorem power_eq_ok_iff {b e q : ℤ} :
    power b e m = .ok q ↔ InRange m q ∧ IsPower b m e q := by
  by_cases hm : m = 0
  · subst hm
    refine iff_of_false ?_ fun h => h.1.modulus_ne_zero rfl
    rw [power, if_pos rfl]
    exact fun h => nomatch h
  rcases le_or_gt 0 e with he | he
  · rw [power_of_nonneg hm b he, Except.ok.injEq, reduce_eq_iff hm, isPower_of_nonneg he]
  rcases hinv : inverse? b m with _ | r
  · rw [power_of_not_invertible hm hinv he]
    refine iff_of_false (fun h => nomatch h) fun ⟨_, hq⟩ => ?_
    exact (inverse?_eq_none_iff.1 hinv).resolve_left hm (gcd_eq_one_of_isPower he hq)
  · obtain ⟨-, hmul⟩ := inverse?_eq_some_iff.1 hinv
    rw [power_of_inverse? hinv he, Except.ok.injEq, reduce_eq_iff hm,
      isPower_iff_of_mul_modEq_one hmul he, isPower_of_nonneg (by omega), Int.natAbs_neg]

/-- There is a power unless a negative exponent asks for an inverse that does not exist. -/
theorem exists_power_iff {b e : ℤ} :
    (∃ q, power b e m = .ok q) ↔ m ≠ 0 ∧ (0 ≤ e ∨ Int.gcd b m = 1) := by
  constructor
  · rintro ⟨q, hq⟩
    obtain ⟨hrange, hpower⟩ := power_eq_ok_iff.1 hq
    refine ⟨hrange.modulus_ne_zero, ?_⟩
    rcases le_or_gt 0 e with he | he
    · exact Or.inl he
    · exact Or.inr (gcd_eq_one_of_isPower he hpower)
  · rintro ⟨hm, h⟩
    rcases le_or_gt 0 e with he | he
    · exact ⟨_, power_of_nonneg hm b he⟩
    · obtain ⟨r, hr⟩ := exists_inverse?_iff.2 ⟨hm, h.resolve_left he.not_ge⟩
      exact ⟨_, power_of_inverse? hr he⟩

end Residue

end CurveLock

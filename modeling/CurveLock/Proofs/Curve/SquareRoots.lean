import CurveLock.Proofs.Curve.Compressed
import CurveLock.Proofs.Number.QuadraticSymbol

/-!
# Squares and roots in the field of a curve

The square test guards the square root: it accepts the residues other than zero that have a root,
and it does so by reciprocity just as by Euler's criterion.  A root is found of these and of zero
(`Curve.exists_root_iff`), whatever the prime is modulo powers of two; of two opposite roots one is
even (`Curve.evenRoot_eq_ok_iff`).
-/

namespace CurveLock

namespace Curve

variable (c : Curve)

/-! ### Roots -/

/-- Roots of one residue that have one parity are the same. -/
theorem eq_of_sq_eq {y z : ℕ} (hy : y < c.prime) (hz : z < c.prime) (hpar : y % 2 = z % 2)
    (hsq : (y : ZMod c.equation.p) ^ 2 = (z : ZMod c.equation.p) ^ 2) : y = z := by
  rw [prime] at hy hz
  have heq := c.equation.eq_of_sq_eq_of_mod_two hsq
    (by rwa [ZMod.val_natCast_of_lt hy, ZMod.val_natCast_of_lt hz])
  rw [← ZMod.val_natCast_of_lt hy, heq, ZMod.val_natCast_of_lt hz]

/-- Of two opposite residues exactly one is even. -/
theorem xor_even_opposite {y : ℕ} (hy : y < c.prime) :
    Xor (y % 2 = 0) ((c.prime - y) % 2 = 0) := by
  have odd : c.prime % 2 = 1 := c.modulus_mod_two
  rw [xor_iff_iff_not]
  omega

variable {c} {v : ℕ}

/-- What is found is a root. -/
theorem root_spec {y : ℕ} (h : c.root v = .ok y) :
    y < c.prime ∧ (y : ZMod c.equation.p) ^ 2 = v := by
  rw [root] at h
  rcases hroot : sqrtMod? c.prime c.parameters.nonSquare v with _ | r
  · rw [hroot] at h
    cases h
  · rw [hroot] at h
    obtain rfl := Except.ok.inj h
    exact sqrtMod?_eq_some (p := c.equation.p) hroot

/-- **A root is found of every residue that has one.** -/
theorem exists_root_iff : (∃ y, c.root v = .ok y) ↔ IsSquare (v : ZMod c.equation.p) := by
  constructor
  · rintro ⟨y, hy⟩
    exact ⟨y, by rw [← sq, (root_spec hy).2]⟩
  · intro hv
    obtain ⟨y, hy, -⟩ := c.exists_root hv
    exact ⟨y, hy⟩

/-- The only failure is that there is no root. -/
theorem root_eq_error_iff {f : Failure} :
    c.root v = .error f ↔ ¬ IsSquare (v : ZMod c.equation.p) ∧ f = .broken (.noSquareRoot c) := by
  -- the report writes no integer
  have hreport : Failure.breakdown (.noSquareRoot c) = .broken (.noSquareRoot c) := rfl
  rw [← exists_root_iff, root, hreport]
  cases sqrtMod? c.prime c.parameters.nonSquare v <;> simp [eq_comm]

/-! ### Even roots -/

theorem evenRoot_eq (v : ℕ) : c.evenRoot v = (c.root v).map (c.withParity false) := by
  rw [evenRoot]
  cases c.root v <;> rfl

theorem withParity_false (y : ℕ) :
    c.withParity false y = if y % 2 = 0 then y else c.prime - y := by
  rcases Nat.mod_two_eq_zero_or_one y with h | h <;> rw [withParity, h] <;> rfl

/-- A root with even parity is an even root. -/
theorem withParity_false_spec {y : ℕ} (hy : y < c.prime) :
    c.withParity false y < c.prime ∧ c.withParity false y % 2 = 0 ∧
      (c.withParity false y : ZMod c.equation.p) ^ 2 = (y : ZMod c.equation.p) ^ 2 := by
  have odd : c.prime % 2 = 1 := c.modulus_mod_two
  rw [withParity_false]
  split_ifs with heven
  · exact ⟨hy, heven, rfl⟩
  · have hopposite : ((c.prime - y : ℕ) : ZMod c.equation.p) = -y :=
      Weierstrass.cast_modulus_sub hy.le
    exact ⟨by omega, by omega, by rw [hopposite, neg_sq]⟩

/-- What is found is an even root. -/
theorem evenRoot_spec {y : ℕ} (h : c.evenRoot v = .ok y) :
    y < c.prime ∧ y % 2 = 0 ∧ (y : ZMod c.equation.p) ^ 2 = v := by
  rw [evenRoot_eq] at h
  rcases hroot : c.root v with f | r
  · rw [hroot] at h
    cases h
  · rw [hroot] at h
    obtain rfl := Except.ok.inj h
    obtain ⟨hlt, hr⟩ := root_spec hroot
    rw [← hr]
    exact withParity_false_spec hlt

theorem exists_evenRoot_iff : (∃ y, c.evenRoot v = .ok y) ↔ IsSquare (v : ZMod c.equation.p) := by
  rw [← exists_root_iff, evenRoot_eq]
  cases c.root v <;> simp [Except.map]

theorem evenRoot_eq_error_iff {f : Failure} :
    c.evenRoot v = .error f ↔
      ¬ IsSquare (v : ZMod c.equation.p) ∧ f = .broken (.noSquareRoot c) := by
  rw [← root_eq_error_iff, evenRoot_eq]
  cases c.root v <;> simp [Except.map]

theorem sq_mod_eq_iff (hv : v < c.prime) {y : ℕ} :
    y ^ 2 % c.prime = v ↔ (y : ZMod c.equation.p) ^ 2 = v := by
  have hmod : v % c.prime = v := Nat.mod_eq_of_lt hv
  rw [← Nat.cast_pow, ZMod.natCast_eq_natCast_iff']
  exact ⟨fun h => h.trans hmod.symm, fun h => h.trans hmod⟩

/-- **Of the roots of a residue the even one is found.** -/
theorem evenRoot_eq_ok_iff (hv : v < c.prime) {y : ℕ} :
    c.evenRoot v = .ok y ↔ y < c.prime ∧ y % 2 = 0 ∧ y ^ 2 % c.prime = v := by
  rw [sq_mod_eq_iff hv]
  constructor
  · exact evenRoot_spec
  · rintro ⟨hy, heven, hsq⟩
    obtain ⟨z, hz⟩ := exists_evenRoot_iff.2 ⟨(y : ZMod c.equation.p), by rw [← sq, hsq]⟩
    obtain ⟨hzlt, hzeven, hzsq⟩ := evenRoot_spec hz
    rw [hz, c.eq_of_sq_eq hzlt hy (hzeven.trans heven.symm) (hzsq.trans hsq.symm)]

/-- A root that is odd has an even opposite, which is found instead. -/
theorem evenRoot_of_root (hv : v < c.prime) {y : ℕ} (hy : y < c.prime)
    (hsq : y ^ 2 % c.prime = v) :
    c.evenRoot v = .ok (if y % 2 = 0 then y else c.prime - y) := by
  obtain ⟨hlt, heven, hroot⟩ := withParity_false_spec hy
  rw [sq_mod_eq_iff hv] at hsq
  rw [evenRoot_eq_ok_iff hv, sq_mod_eq_iff hv, ← withParity_false, hroot]
  exact ⟨hlt, heven, hsq⟩

/-! ### The test and the root -/

/-- The residues that have a root are zero and those that pass the test. -/
theorem isSquare_cast_iff (hv : v < c.prime) :
    IsSquare (v : ZMod c.equation.p) ↔ v = 0 ∨ c.isSquare v = true := by
  have hzero : (v : ZMod c.equation.p) = 0 ↔ v = 0 := by
    rw [ZMod.natCast_eq_zero_iff]
    exact ⟨fun h => Nat.eq_zero_of_dvd_of_lt h hv, fun h => h ▸ dvd_zero _⟩
  rw [isSquare_iff, Int.cast_natCast, Ne, hzero]
  constructor
  · intro hsq
    by_cases h0 : v = 0
    · exact .inl h0
    · exact .inr ⟨h0, hsq⟩
  · rintro (rfl | ⟨-, hsq⟩)
    · rw [Nat.cast_zero]
      exact IsSquare.zero
    · exact hsq

/-- The square test on integers, without the field. -/
theorem isSquare_iff_exists_modEq (v : ℤ) :
    c.isSquare v = true ↔ ¬ (c.prime : ℤ) ∣ v ∧ ∃ y : ℤ, y ^ 2 ≡ v [ZMOD c.prime] := by
  rw [isSquare_iff, Ne, ZMod.intCast_zmod_eq_zero_iff_dvd]
  refine and_congr_right fun _ => ⟨?_, ?_⟩
  · rintro ⟨y, hy⟩
    refine ⟨(y.val : ℤ), (ZMod.intCast_eq_intCast_iff _ _ c.equation.p).1 ?_⟩
    rw [Int.cast_pow, Int.cast_natCast, ZMod.natCast_zmod_val, hy, sq]
  · rintro ⟨y, hy⟩
    have hcast := (ZMod.intCast_eq_intCast_iff _ _ c.equation.p).2 hy
    exact ⟨(y : ZMod c.equation.p), by rw [← hcast, Int.cast_pow, sq]⟩

theorem isSquare_iff_quadraticSymbol (v : ℤ) :
    c.isSquare v = true ↔ quadraticSymbol c.prime (v % c.prime).toNat c.prime = 1 :=
  isSquareMod_iff_quadraticSymbol (p := c.equation.p) c.modulus_mod_two _

variable (c)

theorem prime_class :
    c ≠ secp224r1 ∧ c.prime % 4 = 3 ∨ c = secp224r1 ∧ c.prime % 2 ^ 96 = 1 := by
  cases c <;> decide

/-- **The square test and the square root agree**, on the curves with a prime `3` modulo `4` and on
secp224r1, where it is `1` modulo `2 ^ 96`.  The test accepts an integer, however large or small, if
and only if the prime does not divide it and it is a square modulo the prime, which is when its
quadratic symbol is one. A square root of a residue is found if and only if it is zero or passes the
test; what is found is a root, and the only failure is that there is none. So it is with the even
root. Of any root and its opposite exactly one is even, and this is the even root that is found. -/
theorem square_test_and_root :
    (c ≠ secp224r1 ∧ c.prime % 4 = 3 ∨ c = secp224r1 ∧ c.prime % 2 ^ 96 = 1) ∧
    (∀ v : ℤ,
      (c.isSquare v = true ↔ ¬ (c.prime : ℤ) ∣ v ∧ ∃ y : ℤ, y ^ 2 ≡ v [ZMOD c.prime]) ∧
      (c.isSquare v = true ↔
        quadraticSymbol c.prime (v % c.prime).toNat c.prime = 1)) ∧
    ∀ v < c.prime,
      ((∃ y, c.root v = .ok y) ↔ v = 0 ∨ c.isSquare v = true) ∧
      (∀ y, c.root v = .ok y → y < c.prime ∧ y ^ 2 % c.prime = v) ∧
      (∀ f, c.root v = .error f ↔
        ¬ (v = 0 ∨ c.isSquare v = true) ∧ f = .broken (.noSquareRoot c)) ∧
      ((∃ y, c.evenRoot v = .ok y) ↔ v = 0 ∨ c.isSquare v = true) ∧
      (∀ y, c.evenRoot v = .ok y ↔ y < c.prime ∧ y % 2 = 0 ∧ y ^ 2 % c.prime = v) ∧
      (∀ f, c.evenRoot v = .error f ↔
        ¬ (v = 0 ∨ c.isSquare v = true) ∧ f = .broken (.noSquareRoot c)) ∧
      ∀ y < c.prime, y ^ 2 % c.prime = v →
        Xor (y % 2 = 0) ((c.prime - y) % 2 = 0) ∧
          c.evenRoot v = .ok (if y % 2 = 0 then y else c.prime - y) := by
  refine ⟨c.prime_class,
    fun v => ⟨isSquare_iff_exists_modEq v, isSquare_iff_quadraticSymbol v⟩, fun v hv => ?_⟩
  have hcast := isSquare_cast_iff hv
  refine ⟨exists_root_iff.trans hcast, fun y hy => ?_, fun f => ?_,
    exists_evenRoot_iff.trans hcast, fun y => evenRoot_eq_ok_iff hv, fun f => ?_,
    fun y hy hsq => ⟨c.xor_even_opposite hy, evenRoot_of_root hv hy hsq⟩⟩
  · obtain ⟨hlt, hsq⟩ := root_spec hy
    exact ⟨hlt, (sq_mod_eq_iff hv).2 hsq⟩
  · rw [root_eq_error_iff, hcast]
  · rw [evenRoot_eq_error_iff, hcast]

theorem square_test_and_root_nine :
    (9 < secp224r1.prime ∧ 3 < secp224r1.prime ∧ 3 ^ 2 % secp224r1.prime = 9) ∧
      secp224r1.isSquare 9 = true ∧ secp224r1.evenRoot 9 = .ok (secp224r1.prime - 3) ∧
      (∃ y, secp224r1.root 9 = .ok y ∧ y ^ 2 % secp224r1.prime = 9) ∧
      secp224r1.root 11 = .error (.broken (.noSquareRoot secp224r1)) ∧
      secp224r1.evenRoot 11 = .error (.broken (.noSquareRoot secp224r1)) := by
  have hnine : 9 < secp224r1.prime := by decide
  have hthree : 3 < secp224r1.prime := by decide
  have hsq : 3 ^ 2 % secp224r1.prime = 9 := by decide
  have heleven : ¬ (11 = 0 ∨ secp224r1.isSquare 11 = true) := by decide +kernel
  obtain ⟨-, -, hroot⟩ := square_test_and_root secp224r1
  obtain ⟨hfound, hsquares, -, heven, -, -, hopposite⟩ := hroot 9 hnine
  obtain ⟨-, hthree'⟩ := hopposite 3 hthree hsq
  have htest := heven.1 ⟨_, hthree'⟩
  obtain ⟨y, hy⟩ := hfound.2 htest
  obtain ⟨-, -, hnone, -, -, hnone', -⟩ := hroot 11 (by decide)
  exact ⟨⟨hnine, hthree, hsq⟩, htest.resolve_left (by decide), hthree', ⟨y, hy, (hsquares y hy).2⟩,
    (hnone _).2 ⟨heleven, rfl⟩, (hnone' _).2 ⟨heleven, rfl⟩⟩

end Curve

end CurveLock

import CurveLock.Curve.Weighted
import CurveLock.Proofs.Curve.Rootless
import Mathlib.Tactic.FieldSimp

/-!
# Multiples without division

Weighted coordinates stand for a point of the group (`Weierstrass.Represents`). Doubling them
doubles the point and adding to them adds to it (`Weierstrass.represents_doubleWeighted`,
`Weierstrass.represents_addWeighted`), so that repeated doubling finds the multiple of a point
(`Weierstrass.ofWeighted_smulWeighted`).

Addition is right as long as equal points of weight one have equal coordinates. Reduced coordinates
do (`Weierstrass.Reduced`), and all that these operations return are reduced. For a point of weight
one whose equal coordinates are not the same numbers, addition returns infinity instead of the
double (`Weierstrass.weight_addWeighted_val`).
-/

namespace CurveLock

/-! ### The formulas

Multiplied out, the tangent and the chord need one division each, by the new weight.
-/

section formulas

variable {F : Type*} [Field F] {X Y Z : F}

theorem tangent_slope (a : F) {U : F} (hZ : Z ≠ 0) (hU : U ≠ 0) (hY : U = Y + Y) :
    (3 * (X / Z ^ 2) ^ 2 + a) / (Y / Z ^ 3 - -(Y / Z ^ 3)) =
      (3 * X ^ 2 + a * Z ^ 4) / (U * Z) := by
  have denominator : Y / Z ^ 3 - -(Y / Z ^ 3) = U / Z ^ 3 := by
    rw [hY]
    ring
  rw [denominator]
  field_simp

theorem tangent_fst {M U : F} (hZ : Z ≠ 0) (hU : U ≠ 0) :
    (M / (U * Z)) ^ 2 - X / Z ^ 2 - X / Z ^ 2 = (M ^ 2 - 2 * (X * U ^ 2)) / (U * Z) ^ 2 := by
  field_simp
  ring

/-- For the tangent and for the chord. -/
theorem line_snd {M U X₃ : F} (hZ : Z ≠ 0) (hU : U ≠ 0) :
    -(M / (U * Z) * (X₃ / (U * Z) ^ 2 - X / Z ^ 2) + Y / Z ^ 3) =
      (M * (X * U ^ 2 - X₃) - Y * U ^ 3) / (U * Z) ^ 3 := by
  field_simp
  ring

theorem chord_slope {x y H : F} (h2 : (2 : F) ≠ 0) (hZ : Z ≠ 0) (hH : H ≠ 0)
    (hx : x * Z ^ 2 = H + X) :
    (Y / Z ^ 3 - y) / (X / Z ^ 2 - x) = 2 * (y * Z ^ 3 - Y) / (2 * H * Z) := by
  have denominator : X / Z ^ 2 - x = -H / Z ^ 2 := by
    field_simp
    linear_combination -hx
  rw [denominator]
  field_simp
  ring

theorem chord_fst {x H R : F} (h2 : (2 : F) ≠ 0) (hZ : Z ≠ 0) (hH : H ≠ 0)
    (hx : x * Z ^ 2 = H + X) :
    (R / (2 * H * Z)) ^ 2 - X / Z ^ 2 - x =
      (R ^ 2 - H * (2 * H) ^ 2 - 2 * (X * (2 * H) ^ 2)) / (2 * H * Z) ^ 2 := by
  obtain rfl : x = (H + X) / Z ^ 2 := by rw [← hx]; field_simp
  field_simp
  ring

end formulas

@[simp] theorem Weighted.neg_y (P : Weighted) : P.neg.y = -P.y := rfl

namespace Weierstrass

variable {W : Weierstrass}

theorem exists_some_eq {x y x' y' : ZMod W.p} (h : W.overField.Nonsingular x y) (hx : x = x')
    (hy : y = y') :
    ∃ h', WeierstrassCurve.Affine.Point.some x y h = .some x' y' h' := by
  subst hx hy
  exact ⟨h, rfl⟩

variable [W.Regular]

theorem two_nsmul_some {x y s x' y' : ZMod W.p} (h : W.overField.Nonsingular x y)
    (hs : (3 * x ^ 2 + W.a) / (y - -y) = s) (hx' : s ^ 2 - x - x = x')
    (hy' : -(s * (x' - x) + y) = y') :
    ∃ h', 2 • WeierstrassCurve.Affine.Point.some x y h = .some x' y' h' := by
  have hy : y ≠ W.overField.negY x y := by
    rw [negY_eq]
    exact fun h0 => W.snd_ne_zero h (W.eq_zero_of_eq_neg h0)
  have slope : W.overField.slope x x y y = s := by
    rw [← hs, WeierstrassCurve.Affine.slope_of_Y_ne rfl hy, negY_eq]
    simp [overField]
  rw [two_nsmul, WeierstrassCurve.Affine.Point.add_self_of_Y_ne hy]
  have fst : W.overField.addX x x s = x' := by
    rw [← hx', WeierstrassCurve.Affine.addX]
    simp [overField]
  refine exists_some_eq _ (by rw [slope, fst]) ?_
  rw [slope, WeierstrassCurve.Affine.addY, WeierstrassCurve.Affine.negAddY, fst, negY_eq, hy']

theorem some_add_some {x₁ y₁ x₂ y₂ s x' y' : ZMod W.p} (h₁ : W.overField.Nonsingular x₁ y₁)
    (h₂ : W.overField.Nonsingular x₂ y₂) (hx : x₁ ≠ x₂) (hs : (y₁ - y₂) / (x₁ - x₂) = s)
    (hx' : s ^ 2 - x₁ - x₂ = x') (hy' : -(s * (x' - x₁) + y₁) = y') :
    ∃ h', WeierstrassCurve.Affine.Point.some x₁ y₁ h₁ + .some x₂ y₂ h₂ = .some x' y' h' := by
  have slope : W.overField.slope x₁ x₂ y₁ y₂ = s := by
    rw [WeierstrassCurve.Affine.slope_of_X_ne hx, hs]
  rw [WeierstrassCurve.Affine.Point.add_of_X_ne hx]
  have fst : W.overField.addX x₁ x₂ s = x' := by
    rw [← hx', WeierstrassCurve.Affine.addX]
    simp [overField]
  refine exists_some_eq _ (by rw [slope, fst]) ?_
  rw [slope, WeierstrassCurve.Affine.addY, WeierstrassCurve.Affine.negAddY, fst, negY_eq, hy']

/-- Over one first coordinate there are a point and its opposite. -/
theorem some_eq_or_eq_neg {x y y' : ZMod W.p} (h : W.overField.Nonsingular x y)
    (h' : W.overField.Nonsingular x y') :
    WeierstrassCurve.Affine.Point.some x y h = .some x y' h' ∨
      WeierstrassCurve.Affine.Point.some x y h = -.some x y' h' := by
  have hsq : y ^ 2 = y' ^ 2 := (W.nonsingular_iff.1 h).trans (W.nonsingular_iff.1 h').symm
  rw [WeierstrassCurve.Affine.Point.neg_some]
  rcases sq_eq_sq_iff_eq_or_eq_neg.1 hsq with rfl | rfl
  · exact Or.inl rfl
  · right
    congr 1
    exact (W.negY_eq x y').symm

/-! ### What weighted coordinates stand for -/

/-- The coordinates stand for the point: for infinity when the weight is zero, and otherwise for
`(x / z², y / z³)`. -/
structure Represents (P : Weighted) (A : W.Group) : Prop where
  zero : (P.z : ZMod W.p) = 0 → A = 0
  finite : (P.z : ZMod W.p) ≠ 0 →
    ∃ h, A = .some ((P.x : ZMod W.p) / (P.z : ZMod W.p) ^ 2) (P.y / (P.z : ZMod W.p) ^ 3) h

theorem represents_one {x y : ℤ} (h : W.overField.Nonsingular (x : ZMod W.p) y) :
    Represents ⟨x, y, 1⟩ (.some _ _ h) where
  zero hz := by simp at hz
  finite _ := exists_some_eq h (by simp) (by simp)

theorem Represents.congr {P Q : Weighted} {A : W.Group} (hP : Represents P A)
    (hx : (Q.x : ZMod W.p) = P.x) (hy : (Q.y : ZMod W.p) = P.y) (hz : (Q.z : ZMod W.p) = P.z) :
    Represents Q A where
  zero h := hP.zero (hz ▸ h)
  finite h := by
    rw [hx, hy, hz]
    exact hP.finite (hz ▸ h)

theorem Represents.neg {P : Weighted} {A : W.Group} (hP : Represents P A) :
    Represents P.neg (-A) where
  zero h := by rw [hP.zero h, neg_zero]
  finite h := by
    obtain ⟨hA, rfl⟩ := hP.finite h
    rw [WeierstrassCurve.Affine.Point.neg_some]
    refine exists_some_eq _ rfl ?_
    rw [negY_eq, Weighted.neg_y, Int.cast_neg, neg_div]
    rfl

/-! ### Doubling and adding -/

variable (W) in
theorem cast_ne_zero_of_emod {z : ℤ} (hz : z % W.p = z) (h0 : z ≠ 0) : (z : ZMod W.p) ≠ 0 := by
  rw [Ne, ZMod.intCast_zmod_eq_zero_iff_dvd]
  exact fun hdvd => h0 (hz.symm.trans (Int.emod_eq_zero_of_dvd hdvd))

/-- No finite point is its own opposite, so that only the double of infinity has weight zero. -/
theorem represents_doubleWeighted {P : Weighted} {A : W.Group} (hP : Represents P A) :
    Represents (W.doubleWeighted P) (2 • A) := by
  have weight : ((W.doubleWeighted P).z : ZMod W.p) = (P.y + P.y) * P.z := by
    simp only [doubleWeighted, ZMod.intCast_mod]
    push_cast
    ring
  have fst : ((W.doubleWeighted P).x : ZMod W.p) =
      (3 * P.x ^ 2 + W.a * P.z ^ 4) ^ 2 - 2 * (P.x * (P.y + P.y) ^ 2) := by
    simp only [doubleWeighted, ZMod.intCast_mod]
    push_cast [ZMod.intCast_mod]
    ring
  have snd : ((W.doubleWeighted P).y : ZMod W.p) = (3 * P.x ^ 2 + W.a * P.z ^ 4) *
      (P.x * (P.y + P.y) ^ 2 - (W.doubleWeighted P).x) - P.y * (P.y + P.y) ^ 3 := by
    simp only [doubleWeighted, ZMod.intCast_mod]
    push_cast [ZMod.intCast_mod]
    ring
  by_cases hZ : (P.z : ZMod W.p) = 0
  · rw [hP.zero hZ, nsmul_zero]
    rw [hZ, mul_zero] at weight
    exact ⟨fun _ => rfl, fun h => absurd weight h⟩
  · obtain ⟨h, rfl⟩ := hP.finite hZ
    have hU : (P.y + P.y : ZMod W.p) ≠ 0 := fun h0 =>
      W.snd_ne_zero h (by rw [W.eq_zero_of_eq_neg (eq_neg_of_add_eq_zero_left h0), zero_div])
    refine ⟨fun h0 => absurd (weight.symm.trans h0) (mul_ne_zero hU hZ), fun _ => ?_⟩
    rw [weight]
    refine two_nsmul_some h (tangent_slope (W.a : ZMod W.p) hZ hU rfl) ?_ ?_
    · rw [tangent_fst hZ hU, fst]
    · rw [line_snd hZ hU, snd]

section

variable {P : Weighted} {A : W.Group} {x y : ℤ}

theorem cast_fstDifference (P : Weighted) (x : ℤ) :
    (W.fstDifference P x : ZMod W.p) = x * (P.z : ZMod W.p) ^ 2 - P.x := by
  rw [fstDifference]
  split_ifs with hz
  · rw [hz]
    push_cast
    ring
  · push_cast [ZMod.intCast_mod]
    ring

theorem cast_sndDifference (P : Weighted) (y : ℤ) :
    (W.sndDifference P y : ZMod W.p) = 2 * (y * (P.z : ZMod W.p) ^ 3 - P.y) := by
  rw [sndDifference]
  split_ifs with hz
  · rw [hz]
    push_cast
    ring
  · push_cast [ZMod.intCast_mod]
    ring

theorem weight_chordWeighted (P : Weighted) (x y : ℤ) :
    ((W.chordWeighted P x y).z : ZMod W.p) = 2 * W.fstDifference P x * P.z := by
  simp only [chordWeighted, ZMod.intCast_mod]
  push_cast
  ring

/-- The points are the same exactly when both differences are zero modulo the prime. -/
theorem eq_some_iff (h₂ : W.overField.Nonsingular (x : ZMod W.p) y) (hP : Represents P A)
    (hZ : (P.z : ZMod W.p) ≠ 0) :
    A = .some _ _ h₂ ↔
      (W.fstDifference P x : ZMod W.p) = 0 ∧ (W.sndDifference P y : ZMod W.p) = 0 := by
  obtain ⟨h₁, rfl⟩ := hP.finite hZ
  rw [cast_fstDifference, cast_sndDifference, WeierstrassCurve.Affine.Point.some.injEq,
    div_eq_iff (pow_ne_zero 2 hZ), div_eq_iff (pow_ne_zero 3 hZ), mul_eq_zero,
    or_iff_right W.two_ne_zero, sub_eq_zero, sub_eq_zero, eq_comm (b := _ * _),
    eq_comm (b := _ * _)]

/-- **The chord meets the curve in the opposite of the sum**, which is infinity for opposite
points. -/
theorem represents_chordWeighted (h₂ : W.overField.Nonsingular (x : ZMod W.p) y)
    (hP : Represents P A) (hZ : (P.z : ZMod W.p) ≠ 0) (hne : A ≠ .some _ _ h₂) :
    Represents (W.chordWeighted P x y) (A + .some _ _ h₂) := by
  have weight := W.weight_chordWeighted P x y
  have fst : ((W.chordWeighted P x y).x : ZMod W.p) =
      (W.sndDifference P y : ZMod W.p) ^ 2 - W.fstDifference P x * (2 * W.fstDifference P x) ^ 2 -
        2 * (P.x * (2 * W.fstDifference P x) ^ 2) := by
    simp only [chordWeighted, ZMod.intCast_mod]
    push_cast [ZMod.intCast_mod]
    ring
  have snd : ((W.chordWeighted P x y).y : ZMod W.p) =
      W.sndDifference P y * (P.x * (2 * W.fstDifference P x) ^ 2 - (W.chordWeighted P x y).x) -
        P.y * (2 * W.fstDifference P x) ^ 3 := by
    simp only [chordWeighted, ZMod.intCast_mod]
    push_cast [ZMod.intCast_mod]
    ring
  have hx := W.cast_fstDifference P x
  have hr := W.cast_sndDifference P y
  -- with names of their own the new weight and the slope are quotients of variables
  generalize (W.fstDifference P x : ZMod W.p) = H at hx weight fst snd
  generalize (W.sndDifference P y : ZMod W.p) = R at hr fst snd
  obtain ⟨h₁, rfl⟩ := hP.finite hZ
  by_cases hH : H = 0
  · -- over one first coordinate points that are not the same are opposite
    have hX : (P.x : ZMod W.p) / (P.z : ZMod W.p) ^ 2 = x := by
      rw [div_eq_iff (pow_ne_zero 2 hZ)]
      linear_combination hx - hH
    obtain ⟨h₁', heq⟩ := exists_some_eq h₁ hX rfl
    rw [heq] at hne ⊢
    rw [(some_eq_or_eq_neg h₁' h₂).resolve_left hne, neg_add_cancel]
    refine ⟨fun _ => rfl, fun hz => absurd ?_ hz⟩
    rw [weight, hH, mul_zero, zero_mul]
  · have hx' : (x : ZMod W.p) * (P.z : ZMod W.p) ^ 2 = H + P.x := by linear_combination -hx
    have hne' : (P.x : ZMod W.p) / (P.z : ZMod W.p) ^ 2 ≠ x := by
      intro h0
      rw [div_eq_iff (pow_ne_zero 2 hZ)] at h0
      exact hH (by linear_combination hx - h0)
    have hU := mul_ne_zero W.two_ne_zero hH
    refine ⟨fun h0 => absurd (weight.symm.trans h0) (mul_ne_zero hU hZ), fun _ => ?_⟩
    rw [weight]
    refine some_add_some h₁ h₂ hne' (chord_slope W.two_ne_zero hZ hH hx') ?_ ?_
    · rw [← hr, chord_fst W.two_ne_zero hZ hH hx', fst]
    · rw [← hr, line_snd hZ hU, snd]

/-- **Adding to coordinates adds to the point**, if coordinates of weight one that stand for the
same point are the same. -/
theorem represents_addWeighted (h₂ : W.overField.Nonsingular (x : ZMod W.p) y)
    (hP : Represents P A) (hz : P.z % W.p = P.z)
    (hexact : P.z = 1 → A = .some _ _ h₂ → P.x = x ∧ P.y = y) :
    Represents (W.addWeighted P x y) (A + .some _ _ h₂) := by
  rw [addWeighted]
  split_ifs with h0 hsame
  · rw [hP.zero (by rw [h0, Int.cast_zero]), zero_add]
    exact (represents_one h₂).congr (ZMod.intCast_mod _ _) (ZMod.intCast_mod _ _) rfl
  · have hZ := W.cast_ne_zero_of_emod hz h0
    obtain rfl := (eq_some_iff h₂ hP hZ).2
      ⟨by rw [hsame.1, Int.cast_zero], by rw [hsame.2, Int.cast_zero]⟩
    rw [← two_nsmul]
    exact represents_doubleWeighted (represents_one h₂)
  · have hZ := W.cast_ne_zero_of_emod hz h0
    refine represents_chordWeighted h₂ hP hZ fun heq => hsame ?_
    obtain ⟨hfst, hsnd⟩ := (eq_some_iff h₂ hP hZ).1 heq
    by_cases h1 : P.z = 1
    · obtain ⟨hx, hy⟩ := hexact h1 heq
      rw [fstDifference, sndDifference, if_pos h1, if_pos h1, hx, hy]
      omega
    · rw [fstDifference, if_neg h1, ZMod.intCast_mod, ZMod.intCast_zmod_eq_zero_iff_dvd] at hfst
      rw [sndDifference, if_neg h1, ZMod.intCast_mod, ZMod.intCast_zmod_eq_zero_iff_dvd] at hsnd
      rw [fstDifference, sndDifference, if_neg h1, if_neg h1]
      exact ⟨Int.emod_eq_zero_of_dvd hfst, Int.emod_eq_zero_of_dvd hsnd⟩

end

/-! ### Reduced coordinates -/

/-- All coordinates are residues. -/
structure Reduced (W : Weierstrass) (P : Weighted) : Prop where
  x : P.x % W.p = P.x
  y : P.y % W.p = P.y
  z : P.z % W.p = P.z

omit [W.Regular] in
theorem reduced_doubleWeighted (P : Weighted) : W.Reduced (W.doubleWeighted P) :=
  ⟨Int.emod_emod .., Int.emod_emod .., Int.emod_emod ..⟩

theorem reduced_addWeighted (P : Weighted) (x y : ℤ) : W.Reduced (W.addWeighted P x y) := by
  have one : (1 : ℤ) % W.p = 1 :=
    Int.emod_eq_of_lt Int.one_nonneg (Int.ofNat_lt.2 (Regular.prime (W := W)).one_lt)
  rw [addWeighted]
  split_ifs
  · exact ⟨Int.emod_emod .., Int.emod_emod .., one⟩
  · exact W.reduced_doubleWeighted _
  · exact ⟨Int.emod_emod .., Int.emod_emod .., Int.emod_emod ..⟩

theorem reduced_multipleWeighted (x y k n : ℕ) : W.Reduced (W.multipleWeighted x y k n) := by
  cases k with
  | zero => exact ⟨Int.zero_emod _, Int.zero_emod _, Int.zero_emod _⟩
  | succ k =>
    rw [multipleWeighted]
    split_ifs
    · exact W.reduced_doubleWeighted _
    · exact W.reduced_addWeighted ..
    · exact W.reduced_addWeighted ..

theorem cast_val (v : ZMod W.p) : ((v.val : ℤ) : ZMod W.p) = v := by
  rw [Int.cast_natCast, ZMod.natCast_zmod_val]

/-- Reduced coordinates of weight one are those of their point. -/
theorem Reduced.eq_val {P : Weighted} (hP : W.Reduced P) {x y : ZMod W.p}
    (h : W.overField.Nonsingular x y) (hA : Represents P (.some x y h)) (h1 : P.z = 1) :
    P.x = x.val ∧ P.y = y.val := by
  obtain ⟨h₁, heq⟩ := hA.finite (by rw [h1, Int.cast_one]; exact one_ne_zero)
  simp only [h1, Int.cast_one, one_pow, div_one,
    WeierstrassCurve.Affine.Point.some.injEq] at heq
  obtain ⟨rfl, rfl⟩ := heq
  rw [ZMod.val_intCast, ZMod.val_intCast, hP.x, hP.y]
  exact ⟨rfl, rfl⟩

theorem represents_addWeighted_val {P : Weighted} {A : W.Group} (hA : Represents P A)
    (hz : P.z % W.p = P.z) {x y : ZMod W.p} (h : W.overField.Nonsingular x y)
    (hexact : P.z = 1 → A = .some x y h → P.x = x.val ∧ P.y = y.val) :
    Represents (W.addWeighted P x.val y.val) (A + .some x y h) := by
  obtain ⟨h', heq⟩ := exists_some_eq h (cast_val x).symm (cast_val y).symm
  rw [heq] at hexact ⊢
  exact represents_addWeighted h' hA hz hexact

/-- **For the same point with other coordinates of weight one the sum is taken for infinity.** -/
theorem weight_addWeighted_val {P : Weighted} {x y : ZMod W.p} (h : W.overField.Nonsingular x y)
    (hP : Represents P (.some x y h)) (h1 : P.z = 1) (hne : P.y ≠ y.val) :
    ((W.addWeighted P x.val y.val).z : ZMod W.p) = 0 := by
  have hZ : (P.z : ZMod W.p) ≠ 0 := by
    rw [h1, Int.cast_one]
    exact one_ne_zero
  obtain ⟨h', heq⟩ := exists_some_eq h (cast_val x).symm (cast_val y).symm
  obtain ⟨hfst, -⟩ := (eq_some_iff h' hP hZ).1 heq
  have hnot : ¬ (W.fstDifference P x.val = 0 ∧ W.sndDifference P y.val = 0) := by
    rintro ⟨-, hsnd⟩
    rw [sndDifference, if_pos h1] at hsnd
    omega
  rw [addWeighted, if_neg (by omega), if_neg hnot, weight_chordWeighted, hfst, mul_zero, zero_mul]

/-- **To reduced coordinates any point can be added.** -/
theorem represents_addReduced {P : Weighted} (hP : W.Reduced P) {A : W.Group} (hA : Represents P A)
    {x y : ZMod W.p} (h : W.overField.Nonsingular x y) :
    Represents (W.addWeighted P x.val y.val) (A + .some x y h) :=
  represents_addWeighted_val hA hP.z h fun h1 heq => hP.eq_val h (heq ▸ hA) h1

/-! ### Multiples -/

/-- **Signed digits find the multiple.** -/
theorem represents_multipleWeighted {x y : ZMod W.p} (h : W.overField.Nonsingular x y) (k : ℕ) :
    ∀ n, 2 * n ≤ 2 ^ k → Represents (W.multipleWeighted x.val y.val k n)
      (n • WeierstrassCurve.Affine.Point.some x y h) := by
  induction k with
  | zero =>
    intro n hn
    obtain rfl : n = 0 := by omega
    rw [zero_nsmul]
    exact ⟨fun _ => rfl, fun h0 => absurd Int.cast_zero h0⟩
  | succ k ih =>
    intro n hn
    rw [pow_succ] at hn
    have doubled {m : ℕ} (hm : 2 * m ≤ 2 ^ k) := represents_doubleWeighted (ih m hm)
    rw [multipleWeighted]
    split_ifs with heven hone
    · obtain ⟨m, rfl⟩ : ∃ m, n = 2 * m := ⟨n / 2, by omega⟩
      rw [Nat.mul_div_cancel_left m two_pos, mul_nsmul']
      exact doubled (by omega)
    · obtain ⟨m, rfl⟩ : ∃ m, n = 2 * m + 1 := ⟨n / 2, by omega⟩
      rw [show (2 * m + 1) / 2 = m by omega, add_nsmul, mul_nsmul', one_nsmul]
      exact represents_addReduced (W.reduced_doubleWeighted _) (doubled (by omega)) h
    · -- the last digit is minus one
      obtain ⟨m, rfl⟩ : ∃ m, n = 2 * m + 1 := ⟨n / 2, by omega⟩
      have hm : 2 * (m + 1) ≤ 2 ^ k := by
        rcases k with _ | k
        · omega
        · rw [pow_succ] at hn ⊢
          omega
      have hsub : (2 * m + 1) • WeierstrassCurve.Affine.Point.some x y h =
          2 • (m + 1) • .some x y h + -.some x y h := by
        rw [← mul_nsmul', show 2 * (m + 1) = 2 * m + 1 + 1 by omega, succ_nsmul _ (2 * m + 1),
          add_neg_cancel_right]
      have hopposite : (W.p - y.val : ℕ) = (W.overField.negY x y).val := by
        rw [negY_eq, ZMod.neg_val, if_neg (W.snd_ne_zero h)]
      rw [show (2 * m + 1) / 2 + 1 = m + 1 by omega, hsub, WeierstrassCurve.Affine.Point.neg_some,
        hopposite]
      exact represents_addReduced (W.reduced_doubleWeighted _) (doubled hm) _

/-! ### Plain coordinates -/

theorem cast_weight (P : Weighted) : (((P.z % W.p).toNat : ℕ) : ZMod W.p) = P.z :=
  cast_toNat_emod (Regular.prime (W := W)).ne_zero _

theorem ofWeighted_of_weight_eq_zero {P : Weighted} (h : (P.z : ZMod W.p) = 0) :
    W.ofWeighted P = .infinity := by
  rw [← cast_weight, ZMod.natCast_eq_zero_iff] at h
  have hnone := inverse?_eq_none_iff.2 (.inr ((Regular.prime (W := W)).dvd_iff_not_coprime.1 h))
  rw [ofWeighted, hnone]

/-- **The point that weighted coordinates stand for is read off.** -/
theorem ofWeighted_eq {P : Weighted} {A : W.Group} (hP : Represents P A) :
    W.ofWeighted P = W.coordinates A := by
  by_cases hZ : (P.z : ZMod W.p) = 0
  · rw [hP.zero hZ, ofWeighted_of_weight_eq_zero hZ, coordinates_zero]
  rcases hi : inverse? (P.z % W.p).toNat W.p with _ | i
  · -- only zero has no inverse
    rcases inverse?_eq_none_iff.1 hi with h0 | hdvd
    · exact absurd h0 (Regular.prime (W := W)).ne_zero
    · rw [← (Regular.prime (W := W)).dvd_iff_not_coprime, ← ZMod.natCast_eq_zero_iff,
        cast_weight] at hdvd
      exact absurd hdvd hZ
  · obtain ⟨-, hmul⟩ := inverse?_eq_some_iff.1 hi
    rw [← ZMod.natCast_eq_natCast_iff, Nat.cast_mul, cast_weight, Nat.cast_one] at hmul
    obtain ⟨h, rfl⟩ := hP.finite hZ
    have fst : (P.x * i * i : ZMod W.p) = P.x / (P.z : ZMod W.p) ^ 2 := by
      rw [eq_div_iff (pow_ne_zero 2 hZ)]
      linear_combination (P.x : ZMod W.p) * (P.z * i + 1) * hmul
    have snd : (P.y * i * i * i : ZMod W.p) = P.y / (P.z : ZMod W.p) ^ 3 := by
      rw [eq_div_iff (pow_ne_zero 3 hZ)]
      linear_combination (P.y : ZMod W.p) * ((P.z * i) ^ 2 + P.z * i + 1) * hmul
    rw [ofWeighted, hi]
    simp only [coordinates_some, toNat_emod_eq_val]
    push_cast
    rw [fst, snd]

theorem represents_smulWeighted (n : ℕ) (A : W.Group) :
    Represents (W.smulWeighted n (W.coordinates A)) (n • A) := by
  rcases A with _ | ⟨x, y, h⟩
  · exact ⟨fun _ => nsmul_zero n, fun h0 => absurd Int.cast_zero h0⟩
  · have hlt := lt_two_pow_bitLength n
    exact represents_multipleWeighted h _ n (by rw [pow_succ]; omega)

theorem reduced_smulWeighted (n : ℕ) (P : Point) : W.Reduced (W.smulWeighted n P) := by
  cases P with
  | infinity => exact ⟨Int.zero_emod _, Int.zero_emod _, Int.zero_emod _⟩
  | affine x y => exact W.reduced_multipleWeighted ..

/-- **A multiple found in weighted coordinates is the multiple.** -/
theorem ofWeighted_smulWeighted (n : ℕ) (A : W.Group) :
    W.ofWeighted (W.smulWeighted n (W.coordinates A)) = W.coordinates (n • A) :=
  ofWeighted_eq (W.represents_smulWeighted n A)

end Weierstrass

end CurveLock

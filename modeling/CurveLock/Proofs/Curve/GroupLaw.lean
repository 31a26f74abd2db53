import CurveLock.Curve.Point
import CurveLock.Proofs.Number.Inverse
import CurveLock.Proofs.Number.Power
import Mathlib.AlgebraicGeometry.EllipticCurve.Affine.Point

/-!
# The chord and tangent law is a group law

The points of a `Weierstrass` equation are the coordinates of the points of a Weierstrass curve over
the field `ZMod p`, whose addition is known to be a commutative group.  `Weierstrass.coordinates`
writes a point of that group down, and the operations on coordinates are those of the group:

* `Weierstrass.contains_iff`: the coordinates of points are what `Weierstrass.Contains` accepts;
* `Weierstrass.add_coordinates`, `Weierstrass.neg_coordinates`, `Weierstrass.multiple_coordinates`.

The equations are taken to be `Weierstrass.Regular`: the right side has no zero, so that no finite
point is its own opposite.
-/

namespace CurveLock

namespace Weierstrass

/-- An equation over an odd prime field whose right side has no zero. -/
class Regular (W : Weierstrass) : Prop where
  prime : W.p.Prime
  odd : W.p % 2 = 1
  rightSide_ne_zero : ∀ x : ZMod W.p, x ^ 3 + W.a * x + W.b ≠ 0

variable (W : Weierstrass)

instance [W.Regular] : Fact W.p.Prime := ⟨Regular.prime⟩

/-- The same equation over the field of residues. -/
def overField : WeierstrassCurve.Affine (ZMod W.p) where
  a₁ := 0
  a₂ := 0
  a₃ := 0
  a₄ := W.a
  a₆ := W.b

/-- The group of points. -/
abbrev Group : Type := W.overField.Point

/-- The coordinates of a point as reduced residues. -/
def coordinates : W.Group → Point
  | .zero => .infinity
  | .some x y _ => .affine x.val y.val

@[simp] theorem coordinates_zero : W.coordinates 0 = .infinity := rfl

@[simp] theorem coordinates_some {x y : ZMod W.p} (h : W.overField.Nonsingular x y) :
    W.coordinates (.some x y h) = .affine x.val y.val := rfl

/-! ### Residues -/

section residues

variable {p : ℕ}

theorem cast_modulus_sub {x : ℕ} (h : x ≤ p) : ((p - x : ℕ) : ZMod p) = -(x : ZMod p) := by
  rw [Nat.cast_sub h, ZMod.natCast_self, zero_sub]

theorem mod_eq_val (n : ℕ) : n % p = (n : ZMod p).val := (ZMod.val_natCast p n).symm

theorem toNat_emod_eq_val [NeZero p] (k : ℤ) : (k % p).toNat = (k : ZMod p).val := by
  rw [← ZMod.val_intCast, Int.toNat_natCast]

theorem cast_toNat_emod (hp : p ≠ 0) (k : ℤ) : (((k % p).toNat : ℕ) : ZMod p) = k := by
  have hcast : (((k % p).toNat : ℕ) : ℤ) = k % p :=
    Int.toNat_of_nonneg (Int.emod_nonneg k (Nat.cast_ne_zero.2 hp))
  rw [← Int.cast_natCast, hcast, ZMod.intCast_mod]

end residues

theorem cast_rightSide (x : ℕ) :
    (W.rightSide x : ZMod W.p) = (x : ZMod W.p) ^ 3 + W.a * x + W.b := by
  rw [rightSide, ZMod.natCast_mod]
  push_cast
  ring

variable [W.Regular]

theorem two_ne_zero : (2 : ZMod W.p) ≠ 0 := by
  have odd : W.p % 2 = 1 := Regular.odd
  have h2 := (Regular.prime (W := W)).two_le
  intro h
  have hdvd : W.p ∣ 2 := by
    rw [← ZMod.natCast_eq_zero_iff]
    exact_mod_cast h
  have := Nat.le_of_dvd (by omega) hdvd
  omega

theorem eq_zero_of_eq_neg {y : ZMod W.p} (h : y = -y) : y = 0 := by
  have : 2 * y = 0 := by linear_combination h
  exact (mul_eq_zero.1 this).resolve_left W.two_ne_zero

/-- Of two opposite residues that are not zero exactly one is odd. -/
theorem val_neg_mod_two {y : ZMod W.p} (hy : y ≠ 0) : (-y).val % 2 = 1 - y.val % 2 := by
  have odd : W.p % 2 = 1 := Regular.odd
  have hlt := ZMod.val_lt y
  rw [ZMod.neg_val, if_neg hy]
  omega

/-- A square root is known by its parity. -/
theorem eq_of_sq_eq_of_mod_two {y z : ZMod W.p} (hsq : y ^ 2 = z ^ 2)
    (hpar : y.val % 2 = z.val % 2) : y = z := by
  rcases sq_eq_sq_iff_eq_or_eq_neg.1 hsq with h | rfl
  · exact h
  · by_cases hz : z = 0
    · rw [hz, neg_zero]
    · rw [W.val_neg_mod_two hz] at hpar
      omega

theorem cast_quotient (u v : ℕ) : (W.quotient u v : ZMod W.p) = u / v := by
  rw [quotient, ZMod.natCast_mod, Nat.cast_mul, cast_inverse?_getD, div_eq_mul_inv]

/-! ### Points and coordinates -/

theorem negY_eq (x y : ZMod W.p) : W.overField.negY x y = -y := by
  simp [WeierstrassCurve.Affine.negY, overField]

theorem equation_iff {x y : ZMod W.p} :
    W.overField.Equation x y ↔ y ^ 2 = x ^ 3 + W.a * x + W.b := by
  simp [WeierstrassCurve.Affine.equation_iff, overField]

/-- Every solution of the equation is a point: its second coordinate is not zero. -/
theorem nonsingular_iff {x y : ZMod W.p} :
    W.overField.Nonsingular x y ↔ y ^ 2 = x ^ 3 + W.a * x + W.b := by
  rw [WeierstrassCurve.Affine.nonsingular_iff, equation_iff]
  refine ⟨And.left, fun h => ⟨h, Or.inr fun hy => ?_⟩⟩
  have hy0 : y = 0 := W.eq_zero_of_eq_neg (by simpa [overField] using hy)
  rw [hy0, zero_pow (by decide)] at h
  exact Regular.rightSide_ne_zero x h.symm

theorem snd_ne_zero {x y : ZMod W.p} (h : W.overField.Nonsingular x y) : y ≠ 0 := by
  rintro rfl
  have := W.nonsingular_iff.1 h
  rw [zero_pow (by decide)] at this
  exact Regular.rightSide_ne_zero x this.symm

theorem square_mod_eq_iff {x y : ℕ} :
    y * y % W.p = W.rightSide x ↔ (y : ZMod W.p) ^ 2 = (x : ZMod W.p) ^ 3 + W.a * x + W.b := by
  have reduced : W.rightSide x = W.rightSide x % W.p := (Nat.mod_mod _ _).symm
  rw [reduced, ← Nat.ModEq, ← ZMod.natCast_eq_natCast_iff, cast_rightSide, Nat.cast_mul, sq]

theorem contains_affine_iff {x y : ℕ} :
    W.Contains (.affine x y) ↔
      x < W.p ∧ y < W.p ∧ (y : ZMod W.p) ^ 2 = (x : ZMod W.p) ^ 3 + W.a * x + W.b := by
  rw [Contains, square_mod_eq_iff]

theorem coordinates_injective : Function.Injective W.coordinates := by
  rintro (_ | ⟨x, y, h⟩) (_ | ⟨x', y', h'⟩) heq
  · rfl
  · cases heq
  · cases heq
  · simp only [coordinates_some, Point.affine.injEq] at heq
    obtain rfl := ZMod.val_injective _ heq.1
    obtain rfl := ZMod.val_injective _ heq.2
    rfl

theorem contains_coordinates (A : W.Group) : W.Contains (W.coordinates A) := by
  rcases A with _ | ⟨x, y, h⟩
  · trivial
  · rw [coordinates_some, contains_affine_iff]
    simpa [ZMod.val_lt] using W.nonsingular_iff.1 h

/-- **The coordinates of points are what satisfies the equation.** -/
theorem contains_iff {P : Point} : W.Contains P ↔ ∃ A, W.coordinates A = P := by
  refine ⟨fun h => ?_, fun ⟨A, hA⟩ => hA ▸ W.contains_coordinates A⟩
  rcases P with _ | ⟨x, y⟩
  · exact ⟨0, rfl⟩
  · obtain ⟨hx, hy, heq⟩ := W.contains_affine_iff.1 h
    refine ⟨.some x y (W.nonsingular_iff.2 heq), ?_⟩
    rw [coordinates_some, ZMod.val_natCast_of_lt hx, ZMod.val_natCast_of_lt hy]

theorem coordinates_eq_infinity_iff {A : W.Group} : W.coordinates A = .infinity ↔ A = 0 :=
  ⟨fun h => W.coordinates_injective h, fun h => h ▸ rfl⟩

/-! ### The operations -/

theorem third_eq (s : ℕ) {x₁ y₁ x₂ : ℕ} (hx₁ : x₁ ≤ W.p) (hy₁ : y₁ ≤ W.p) (hx₂ : x₂ ≤ W.p) :
    W.third s x₁ y₁ x₂ =
      .affine (W.overField.addX x₁ x₂ s).val (W.overField.addY x₁ x₂ y₁ s).val := by
  have fst : ((s * s + (W.p - x₁) + (W.p - x₂) : ℕ) : ZMod W.p) = W.overField.addX x₁ x₂ s := by
    push_cast
    rw [cast_modulus_sub hx₁, cast_modulus_sub hx₂]
    simp [WeierstrassCurve.Affine.addX, overField]
    ring
  have hx₃ : (s * s + (W.p - x₁) + (W.p - x₂)) % W.p ≤ W.p :=
    (Nat.mod_lt _ (Regular.prime (W := W)).pos).le
  rw [third]
  simp only [Point.affine.injEq]
  refine ⟨by rw [mod_eq_val, fst], ?_⟩
  rw [mod_eq_val]
  congr 1
  push_cast
  rw [cast_modulus_sub hx₃, cast_modulus_sub hy₁, ZMod.natCast_mod, fst]
  rw [WeierstrassCurve.Affine.addY, negY_eq, WeierstrassCurve.Affine.negAddY]
  ring

theorem cast_tangent (x y : ℕ) :
    (W.tangent x y : ZMod W.p) = (3 * (x : ZMod W.p) ^ 2 + W.a) / (2 * y) := by
  rw [tangent, cast_quotient]
  push_cast
  ring

theorem cast_chord {x₁ y₁ : ℕ} (x₂ y₂ : ℕ) (hx₁ : x₁ ≤ W.p) (hy₁ : y₁ ≤ W.p) :
    (W.chord x₁ y₁ x₂ y₂ : ZMod W.p) = ((y₁ : ZMod W.p) - y₂) / (x₁ - x₂) := by
  rw [chord, cast_quotient]
  push_cast
  rw [cast_modulus_sub hx₁, cast_modulus_sub hy₁, ← neg_div_neg_eq]
  ring

/-- **Adding coordinates adds points.** -/
theorem add_coordinates (A B : W.Group) :
    W.add (W.coordinates A) (W.coordinates B) = W.coordinates (A + B) := by
  rcases A with _ | ⟨x₁, y₁, h₁⟩
  · exact congrArg W.coordinates (zero_add B).symm
  rcases B with _ | ⟨x₂, y₂, h₂⟩
  · exact congrArg W.coordinates (add_zero (WeierstrassCurve.Affine.Point.some x₁ y₁ h₁)).symm
  have hle : ∀ z : ZMod W.p, z.val ≤ W.p := fun z => (ZMod.val_lt z).le
  simp only [coordinates_some, add]
  by_cases hx : x₁ = x₂
  · subst hx
    by_cases hy : y₁ = W.overField.negY x₁ y₂
    · -- opposite points
      rw [WeierstrassCurve.Affine.Point.add_of_Y_eq rfl hy, coordinates_zero]
      have hsum : (y₁.val + y₂.val) % W.p = 0 := by
        rw [negY_eq] at hy
        rw [← ZMod.val_add, hy, neg_add_cancel, ZMod.val_zero]
      simp [hsum]
    · -- the tangent
      have hsum : ¬ (y₁.val + y₂.val) % W.p = 0 := by
        rw [← ZMod.val_add, ZMod.val_eq_zero]
        intro h0
        exact hy (by rw [negY_eq]; exact eq_neg_of_add_eq_zero_left h0)
      have slope : (W.tangent x₁.val y₁.val : ZMod W.p) = W.overField.slope x₁ x₁ y₁ y₂ := by
        rw [cast_tangent, WeierstrassCurve.Affine.slope_of_Y_ne rfl hy, negY_eq]
        simp [overField, two_mul]
      rw [if_pos rfl, if_neg hsum, W.third_eq _ (hle _) (hle _) (hle _), slope,
        WeierstrassCurve.Affine.Point.add_some (fun h => hy h.2)]
      simp
  · -- the chord
    have hval : x₁.val ≠ x₂.val := fun h => hx (ZMod.val_injective _ h)
    have slope : (W.chord x₁.val y₁.val x₂.val y₂.val : ZMod W.p) =
        W.overField.slope x₁ x₂ y₁ y₂ := by
      rw [W.cast_chord _ _ (hle _) (hle _), WeierstrassCurve.Affine.slope_of_X_ne hx]
      simp
    rw [if_neg hval, W.third_eq _ (hle _) (hle _) (hle _), slope,
      WeierstrassCurve.Affine.Point.add_some (fun h => hx h.1)]
    simp

/-- **The opposite coordinates are those of the opposite point.** -/
theorem neg_coordinates (A : W.Group) : W.neg (W.coordinates A) = W.coordinates (-A) := by
  rcases A with _ | ⟨x, y, h⟩
  · rfl
  · have hy : (W.p - y.val) % W.p = (W.overField.negY x y).val := by
      rw [mod_eq_val, cast_modulus_sub (ZMod.val_lt y).le, negY_eq, ZMod.natCast_zmod_val]
    rw [WeierstrassCurve.Affine.Point.neg_some, coordinates_some, coordinates_some, neg, hy]

/-- **Repeated doubling multiplies points.** -/
theorem multiple_coordinates (n : ℕ) (A : W.Group) :
    W.multiple n (W.coordinates A) = W.coordinates (n • A) := by
  refine doubleAndAdd_induction (fun i P => P = W.coordinates (i • A)) ?_ ?_ ?_ n
  · rw [zero_nsmul, coordinates_zero]
  · rintro i P rfl
    rw [add_coordinates, two_mul, add_nsmul]
  · rintro i P rfl
    rw [add_coordinates, succ_nsmul]

end Weierstrass

end CurveLock

import CurveLock.Proofs.Curve.Primes
import CurveLock.Proofs.Curve.Weighted
import Mathlib.Algebra.Module.ZMod
import Mathlib.GroupTheory.Perm.Cycle.Type

/-!
# The order of every curve is the number of its points

The base point has the prime order that the domain parameters give, so the order divides the number
of points.  There are at most `2·p + 1` points, fewer than three times the order, and their number
is not even, because no finite point is its own opposite.  That leaves the order itself
(`Curve.card_group`).

The points are then a vector space over the residues modulo the order, and multiplying a point by an
integer is multiplying it by a residue (`Curve.smul_coordinates`).  Every point is one multiple of
any point other than zero (`Curve.smul_left_bijective`), of the base point for one.
-/

namespace CurveLock

namespace Weierstrass

variable (W : Weierstrass)

/-- What remains of a point when its second coordinate is reduced to its parity. -/
def compressed : W.Group → Option (ZMod W.p × Bool)
  | .zero => none
  | .some x y _ => some (x, y.val % 2 = 1)

variable [W.Regular]

theorem compressed_injective : Function.Injective W.compressed := by
  rintro (_ | ⟨x, y, h⟩) (_ | ⟨x', y', h'⟩) heq
  · rfl
  · cases heq
  · cases heq
  · simp only [compressed, Option.some.injEq, Prod.mk.injEq, decide_eq_decide] at heq
    obtain ⟨rfl, hpar⟩ := heq
    have hsq : y ^ 2 = y' ^ 2 := (W.nonsingular_iff.1 h).trans (W.nonsingular_iff.1 h').symm
    obtain rfl := W.eq_of_sq_eq_of_mod_two hsq (by omega)
    rfl

instance : Finite W.Group := .of_injective _ W.compressed_injective

theorem card_group_le : Nat.card W.Group ≤ 2 * W.p + 1 := by
  have hle := Nat.card_le_card_of_injective _ W.compressed_injective
  rw [Finite.card_option, Nat.card_prod, Nat.card_zmod] at hle
  simpa [mul_comm] using hle

theorem two_nsmul_ne_zero {A : W.Group} (hA : A ≠ 0) : 2 • A ≠ 0 := by
  rcases A with _ | ⟨x, y, h⟩
  · exact absurd rfl hA
  · rw [two_nsmul, Ne, add_eq_zero_iff_eq_neg, WeierstrassCurve.Affine.Point.neg_some]
    intro heq
    injection heq with _ hy
    rw [negY_eq] at hy
    exact W.snd_ne_zero h (W.eq_zero_of_eq_neg hy)

theorem not_two_dvd_card_group : ¬ 2 ∣ Nat.card W.Group := by
  intro h
  obtain ⟨A, hA⟩ := exists_prime_addOrderOf_dvd_card' 2 h
  have hne : A ≠ 0 := by
    rintro rfl
    rw [addOrderOf_zero] at hA
    omega
  exact W.two_nsmul_ne_zero hne (hA ▸ addOrderOf_nsmul_eq_zero A)

/-- A prime order of a point is the number of all points when three times as many would be too
many. -/
theorem card_group_eq_of_nsmul_eq_zero {n : ℕ} (hn : n.Prime) (hlarge : 2 * W.p + 1 < 3 * n)
    {A : W.Group} (hA : A ≠ 0) (h : n • A = 0) : Nat.card W.Group = n := by
  have : Fact n.Prime := ⟨hn⟩
  have hdvd : n ∣ Nat.card W.Group := addOrderOf_eq_prime h hA ▸ addOrderOf_dvd_natCard A
  obtain ⟨k, hk⟩ := hdvd
  have hle := W.card_group_le
  have hpos : 0 < Nat.card W.Group := Nat.card_pos
  have hodd := W.not_two_dvd_card_group
  have hlt : k < 3 := by
    by_contra hge
    have := Nat.mul_le_mul_left n (not_lt.1 hge)
    omega
  rw [hk] at hpos hodd ⊢
  -- one point at least, and not an even number of them
  interval_cases k
  · omega
  · omega
  · exact absurd (Dvd.intro_left n rfl) hodd

end Weierstrass

namespace Curve

variable (c : Curve)

instance : Fact c.order.Prime := ⟨c.prime_order⟩

theorem contains_generator : c.equation.Contains c.generator := by
  cases c <;> decide +kernel

theorem smulWeighted_order_generator :
    c.equation.ofWeighted (c.equation.smulWeighted c.order c.generator) = .infinity := by
  cases c <;> decide +kernel

theorem two_mul_prime_lt : 2 * c.equation.p + 1 < 3 * c.order := by
  cases c <;> decide +kernel

/-- **The order of a curve is the number of its points.** -/
theorem card_group : Nat.card c.equation.Group = c.order := by
  obtain ⟨G, hG⟩ := c.equation.contains_iff.1 c.contains_generator
  have hne : G ≠ 0 := by
    rintro rfl
    cases c <;> cases hG
  have hzero := c.smulWeighted_order_generator
  rw [← hG, Weierstrass.ofWeighted_smulWeighted, Weierstrass.coordinates_eq_infinity_iff] at hzero
  exact c.equation.card_group_eq_of_nsmul_eq_zero c.prime_order c.two_mul_prime_lt hne hzero

theorem order_nsmul (A : c.equation.Group) : c.order • A = 0 := by
  rw [← c.card_group]
  exact card_nsmul_eq_zero'

/-- The points are a vector space over the residues modulo the order. -/
instance : Module (ZMod c.order) c.equation.Group := AddCommGroup.zmodModule c.order_nsmul

/-- **Multiplying coordinates by an integer multiplies the point by its residue.** -/
theorem smul_coordinates (k : ℤ) (A : c.equation.Group) :
    c.smul k (c.equation.coordinates A) = c.equation.coordinates ((k : ZMod c.order) • A) := by
  rw [smul, Weierstrass.multiple_coordinates,
    ← Weierstrass.cast_toNat_emod c.prime_order.ne_zero k, Nat.cast_smul_eq_nsmul]

theorem add_eq_infinity_iff {P Q : Point} (hP : c.equation.Contains P)
    (hQ : c.equation.Contains Q) : c.add P Q = .infinity ↔ P = c.neg Q := by
  obtain ⟨A, rfl⟩ := c.equation.contains_iff.1 hP
  obtain ⟨B, rfl⟩ := c.equation.contains_iff.1 hQ
  rw [add, neg, c.equation.add_coordinates, c.equation.neg_coordinates,
    c.equation.coordinates_eq_infinity_iff, c.equation.coordinates_injective.eq_iff,
    eq_neg_iff_add_eq_zero]

/-- **Every point other than zero generates the group**: every point is one multiple of it. -/
theorem smul_left_bijective {A : c.equation.Group} (hA : A ≠ 0) :
    Function.Bijective fun k : ZMod c.order => k • A := by
  have card : Nat.card (ZMod c.order) = Nat.card c.equation.Group := by
    rw [Nat.card_zmod, c.card_group]
  exact (Nat.bijective_iff_injective_and_card _).2 ⟨smul_left_injective _ hA, card⟩

/-! ### The base point -/

/-- The base point as a point of the group. -/
noncomputable def basePoint : c.equation.Group :=
  Classical.choose (c.equation.contains_iff.1 c.contains_generator)

theorem coordinates_basePoint : c.equation.coordinates c.basePoint = c.generator :=
  Classical.choose_spec (c.equation.contains_iff.1 c.contains_generator)

theorem basePoint_ne_zero : c.basePoint ≠ 0 := by
  intro h
  have hG := c.coordinates_basePoint
  rw [h] at hG
  cases c <;> cases hG

theorem smul_generator (k : ℤ) :
    c.smul k c.generator = c.equation.coordinates ((k : ZMod c.order) • c.basePoint) := by
  rw [← c.coordinates_basePoint, c.smul_coordinates]

end Curve

end CurveLock

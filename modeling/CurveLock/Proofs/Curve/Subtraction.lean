import CurveLock.Curve.Scalar
import CurveLock.Proofs.Curve.Order

/-!
# Taking a multiple off a point

Decryption takes the multiple `x · C₁` off the point `C₂` (`Curve.Arithmetic.difference`).

* `Curve.Arithmetic.IsGroup`: the operations of an arithmetic are those of the group, and what is
  left is then the difference (`Curve.Arithmetic.IsGroup.difference_coordinates`);
* `Curve.plain`: the arithmetic on plain coordinates, which is of this kind;
* `Curve.weighted` is not (`Curve.not_isGroup_weighted`). In weighted coordinates too the difference
  is left (`Curve.weighted_difference_coordinates`), with one exception, `Curve.Misread`: where the
  multiple has weight one and `C₂` is its opposite, the two are the same point in other coordinates,
  and their sum is taken for infinity (`Curve.weighted_difference_of_misread`).
-/

namespace CurveLock

namespace Curve

variable {c : Curve}

/-! ### Arithmetics that are those of the group -/

namespace Arithmetic

/-- The operations are those of the group of points. -/
structure IsGroup (ops : c.Arithmetic) : Prop where
  mul (n : ℕ) {P : Point} (hP : c.equation.Contains P) : ops.toPoint (ops.mul n P) = c.smul n P
  neg {F : ops.Form} (hF : c.equation.Contains (ops.toPoint F)) :
    ops.toPoint (ops.neg F) = c.neg (ops.toPoint F)
  add {P : Point} (hP : c.equation.Contains P) {F : ops.Form}
    (hF : c.equation.Contains (ops.toPoint F)) :
    ops.toPoint (ops.add P F) = c.add P (ops.toPoint F)

/-- What is left of `C₂` when the multiple of `C₁` is taken off. -/
def difference (ops : c.Arithmetic) (x : Key c) (C₁ C₂ : Point) : Point :=
  ops.toPoint (ops.add C₂ (ops.neg (ops.mul x.val C₁)))

/-- **The difference is left.** -/
theorem IsGroup.difference_coordinates {ops : c.Arithmetic} (h : ops.IsGroup) (x : Key c)
    (A B : c.equation.Group) :
    ops.difference x (c.equation.coordinates A) (c.equation.coordinates B) =
      c.equation.coordinates (B - (x.val : ZMod c.order) • A) := by
  have mask : ops.toPoint (ops.mul x.val (c.equation.coordinates A)) =
      c.equation.coordinates ((x.val : ZMod c.order) • A) := by
    rw [h.mul _ (c.equation.contains_coordinates A), c.smul_coordinates, Int.cast_natCast]
  have opposite : ops.toPoint (ops.neg (ops.mul x.val (c.equation.coordinates A))) =
      c.equation.coordinates (-((x.val : ZMod c.order) • A)) := by
    rw [h.neg (mask ▸ c.equation.contains_coordinates _), mask, Curve.neg,
      c.equation.neg_coordinates]
  rw [difference, h.add (c.equation.contains_coordinates B)
    (opposite ▸ c.equation.contains_coordinates _), opposite, Curve.add,
    c.equation.add_coordinates, sub_eq_add_neg]

end Arithmetic

variable (c) in
/-- Points multiplied and added on their plain coordinates. -/
def plain : c.Arithmetic where
  Form := Point
  mul n P := c.smul n P
  neg := c.neg
  add := c.add
  toPoint P := P

theorem isGroup_plain : c.plain.IsGroup := ⟨fun _ _ _ => rfl, fun _ => rfl, fun _ _ _ => rfl⟩

/-! ### Weighted coordinates -/

/-- The multiple of the first point has weight one, and the second point is its opposite. -/
def Misread (x : Key c) (C₁ C₂ : Point) : Prop :=
  (c.equation.smulWeighted x.val C₁).z = 1 ∧ C₂ = c.neg (c.smul x.val C₁)

instance (x : Key c) (C₁ C₂ : Point) : Decidable (Misread x C₁ C₂) :=
  inferInstanceAs (Decidable (_ ∧ _))

/-- The multiple by one is the point itself, of weight one. -/
theorem weight_smulWeighted_one (P : Point) (hP : P ≠ .infinity) :
    (c.equation.smulWeighted 1 P).z = 1 := by
  cases P with
  | infinity => exact absurd rfl hP
  | affine x y => rfl

section

variable {x : Key c} {A B : c.equation.Group}

theorem misread_coordinates_iff :
    Misread x (c.equation.coordinates A) (c.equation.coordinates B) ↔
      (c.equation.smulWeighted x.val (c.equation.coordinates A)).z = 1 ∧
        B = -((x.val : ZMod c.order) • A) := by
  rw [Misread, c.smul_coordinates, Int.cast_natCast, Curve.neg, c.equation.neg_coordinates,
    c.equation.coordinates_injective.eq_iff]

theorem represents_neg_mask (x : Key c) (A : c.equation.Group) :
    Weierstrass.Represents (c.equation.smulWeighted x.val (c.equation.coordinates A)).neg
      (-((x.val : ZMod c.order) • A)) := by
  rw [Nat.cast_smul_eq_nsmul]
  exact (c.equation.represents_smulWeighted x.val A).neg

/-- **In weighted coordinates the difference is left**, unless the points are misread. -/
theorem weighted_difference_coordinates (hB : B ≠ 0)
    (h : ¬ Misread x (c.equation.coordinates A) (c.equation.coordinates B)) :
    c.weighted.difference x (c.equation.coordinates A) (c.equation.coordinates B) =
      c.equation.coordinates (B - (x.val : ZMod c.order) • A) := by
  rw [misread_coordinates_iff] at h
  have mask := represents_neg_mask x A
  have reduced := c.equation.reduced_smulWeighted x.val (c.equation.coordinates A)
  rcases B with _ | ⟨u, v, hB'⟩
  · exact absurd rfl hB
  rw [sub_eq_neg_add]
  exact Weierstrass.ofWeighted_eq (Weierstrass.represents_addWeighted_val mask reduced.z hB'
    fun h1 heq => absurd ⟨h1, heq.symm⟩ h)

/-- **Nothing is left of points that are misread.** -/
theorem weighted_difference_of_misread (hB : B ≠ 0)
    (h : Misread x (c.equation.coordinates A) (c.equation.coordinates B)) :
    c.weighted.difference x (c.equation.coordinates A) (c.equation.coordinates B) = .infinity := by
  obtain ⟨h1, heq⟩ := misread_coordinates_iff.1 h
  have mask := represents_neg_mask x A
  have reduced := c.equation.reduced_smulWeighted x.val (c.equation.coordinates A)
  rcases B with _ | ⟨u, v, hB'⟩
  · exact absurd rfl hB
  rw [← heq] at mask
  -- the second coordinate of the opposite is not positive, and that of the point is
  have hv : v.val ≠ 0 := (ZMod.val_eq_zero v).not.2 (c.equation.snd_ne_zero hB')
  have hy : 0 ≤ (c.equation.smulWeighted x.val (c.equation.coordinates A)).y :=
    reduced.y ▸ Int.emod_nonneg _ (Nat.cast_ne_zero.2 c.prime_prime.ne_zero)
  have hne : (c.equation.smulWeighted x.val (c.equation.coordinates A)).neg.y ≠ v.val := by
    rw [Weighted.neg_y]
    omega
  exact Weierstrass.ofWeighted_of_weight_eq_zero
    (Weierstrass.weight_addWeighted_val hB' mask h1 hne)

/-- What is left is a point of the curve in any case. -/
theorem exists_weighted_difference (x : Key c) (A : c.equation.Group) (hB : B ≠ 0) :
    ∃ C, c.weighted.difference x (c.equation.coordinates A) (c.equation.coordinates B) =
      c.equation.coordinates C := by
  by_cases h : Misread x (c.equation.coordinates A) (c.equation.coordinates B)
  · exact ⟨0, weighted_difference_of_misread hB h⟩
  · exact ⟨_, weighted_difference_coordinates hB h⟩

end

/-- On secp192r1 the double of a point with second coordinate one half has weight one. -/
example : Misread (c := .secp192r1) ⟨2, by decide, by decide +kernel⟩
    (.affine 0xf79bf7ca5364b7e50ac296c8ead98f3758a985ec63128bda
      0x7fffffffffffffffffffffffffffffff8000000000000000)
    (.affine 0x3dc55142a11ad6014d49fa2ffe91bd994b9706f68590275f
      0x5b45c61b0fe4ea5239f159a18ea317dc335b7ee17f9277d2) := by
  decide +kernel

/-- The key one. -/
def keyOne (c : Curve) : Key c := ⟨1, one_pos, c.prime_order.one_lt⟩

/-- With the key one opposite points are misread. -/
theorem misread_neg {A : c.equation.Group} (hA : A ≠ 0) :
    Misread c.keyOne (c.equation.coordinates A) (c.equation.coordinates (-A)) := by
  refine misread_coordinates_iff.2 ⟨weight_smulWeighted_one _ ?_, ?_⟩
  · exact mt c.equation.coordinates_eq_infinity_iff.1 hA
  · rw [keyOne, Nat.cast_one, one_smul]

/-- **On no curve is the arithmetic in weighted coordinates that of the group.** -/
theorem not_isGroup_weighted : ¬ c.weighted.IsGroup := by
  intro h
  have hG := c.basePoint_ne_zero
  have hdifference := h.difference_coordinates c.keyOne c.basePoint (-c.basePoint)
  rw [weighted_difference_of_misread (neg_ne_zero.2 hG) (misread_neg hG), eq_comm,
    c.equation.coordinates_eq_infinity_iff, keyOne, Nat.cast_one, one_smul, ← neg_add',
    ← two_nsmul, neg_eq_zero] at hdifference
  exact c.equation.two_nsmul_ne_zero hG hdifference

end Curve

end CurveLock

import CurveLock.Curve.Scalar
import CurveLock.Proofs.Curve.Primes
import CurveLock.Proofs.Scratch

/-!
# Random scalars

The number that is drawn decides the random scalar, and every scalar in `[1, n - 1]` is drawn from
some scratch.  `Scratch.Supplies` names the scalar that a scratch will yield; what holds for every
such scalar holds for every random choice.
-/

namespace CurveLock

/-- The next random scalar that the scratch yields is `r`. -/
def Scratch.Supplies {c : Curve} (s : Scratch) (r : Key c) : Prop :=
  ∃ v rest, s.supply = v :: rest ∧ (r.val : ℤ) = 1 + v % (c.order - 1)

namespace Curve

variable (c : Curve)

theorem order_sub_one_pos : (0 : ℤ) < c.order - 1 := by
  have two_le := c.prime_order.two_le
  omega

theorem run_randomScalar_cons {s : Scratch} {v : ℤ} {rest : List ℤ} (h : s.supply = v :: rest) :
    c.randomScalar.run s =
      .ok (1 + v % (c.order - 1)) { s with opCount := s.opCount + 1, supply := rest } := by
  have hpos := c.order_sub_one_pos
  have hbound : ((c.order - 1 : ℤ).toNat : ℤ) = c.order - 1 := Int.toNat_of_nonneg hpos.le
  have hvalue : ((v % (c.order - 1)).toNat : ℤ) = v % (c.order - 1) :=
    Int.toNat_of_nonneg (Int.emod_nonneg v hpos.ne')
  have hdraw := Metered.run_draw_cons (c.order - 1 : ℤ).toNat v rest
    { s with opCount := s.opCount + 1 } h
  rw [hbound] at hdraw
  rw [randomScalar, Metered.randomBetween, if_neg (by omega), Metered.randomBelow,
    if_neg (by omega)]
  simp only [EStateM.run_bind, Metered.run_tick, hdraw, EStateM.run_pure, hvalue]

theorem run_randomScalar_nil {s : Scratch} (h : s.supply = []) :
    c.randomScalar.run s = .error .noRandomness { s with opCount := s.opCount + 1 } := by
  have hpos := c.order_sub_one_pos
  have hdraw := Metered.run_draw_nil (c.order - 1 : ℤ).toNat { s with opCount := s.opCount + 1 } h
  rw [randomScalar, Metered.randomBetween, if_neg (by omega), Metered.randomBelow,
    if_neg (by omega)]
  simp only [EStateM.run_bind, Metered.run_tick, hdraw]

/-- **A random scalar is the one that the scratch supplies.** -/
theorem exists_run_randomScalar {s : Scratch} {r : Key c} (h : s.Supplies r) :
    ∃ s', c.randomScalar.run s = .ok (r.val : ℤ) s' := by
  obtain ⟨v, rest, hsupply, hr⟩ := h
  rw [hr, c.run_randomScalar_cons hsupply]
  exact ⟨_, rfl⟩

/-- As long as there is a number left to be drawn, a scalar is supplied. -/
theorem exists_supplies {s : Scratch} (h : s.supply ≠ []) : ∃ r : Key c, s.Supplies r := by
  obtain ⟨v, rest, hsupply⟩ := List.exists_cons_of_ne_nil h
  have hpos := c.order_sub_one_pos
  have hnonneg := Int.emod_nonneg v hpos.ne'
  have hlt := Int.emod_lt_of_pos v hpos
  exact ⟨⟨(1 + v % (c.order - 1)).toNat, by omega, by omega⟩, v, rest, hsupply,
    Int.toNat_of_nonneg (by omega)⟩

/-- Every scalar in `[1, n - 1]` is supplied by some scratch. -/
theorem exists_scratch_supplies (r : Key c) : ∃ s : Scratch, s.Supplies r := by
  have hpos := r.pos
  have hlt := r.lt_order
  refine ⟨{ supply := [(r.val : ℤ) - 1] }, (r.val : ℤ) - 1, [], rfl, ?_⟩
  rw [Int.emod_eq_of_lt (by omega) (by omega)]
  omega

/-- **Every key comes from exactly one number below `n - 1`.** -/
theorem existsUnique_draw (x : Key c) :
    ∃! v : ℤ, (0 ≤ v ∧ v < c.order - 1) ∧
      ∀ (s : Scratch) (rest : List ℤ), s.supply = v :: rest → s.Supplies x := by
  have hpos := x.pos
  have hlt := x.lt_order
  refine ⟨x.val - 1, ⟨⟨by omega, by omega⟩, fun s rest hs => ⟨_, rest, hs, ?_⟩⟩, ?_⟩
  · rw [Int.emod_eq_of_lt (by omega) (by omega)]
    omega
  · rintro v ⟨⟨hv, hv'⟩, hsupplies⟩
    obtain ⟨w, rest, hw, hx⟩ := hsupplies { supply := [v] } [] rfl
    obtain ⟨rfl, -⟩ := List.cons.inj hw
    rw [Int.emod_eq_of_lt hv hv'] at hx
    omega

/-- Where zero is drawn the scalar is one. -/
theorem supplies_one {r : Key c} (hr : r.val = 1) :
    Scratch.Supplies { supply := [0] } r := by
  refine ⟨0, [], rfl, ?_⟩
  rw [hr, Int.zero_emod]
  rfl

end Curve

end CurveLock

import CurveLock.Proofs.Curve.HashToPoint
import CurveLock.Proofs.Scratch
import Mathlib.Algebra.Order.Floor.Div

/-!
# The point over the first hit

A candidate is a hit when the right side of the equation is a square other than zero there
(`Curve.IsHit`).  A message with a hit is hashed to the even point over the first one, at the cost
of one run of the oracle for each candidate up to it; a message without one is searched for without
end (`Curve.hashed_to_first_hit`).
-/

namespace CurveLock

theorem Oracle.blockCount_eq_ceilDiv (bound : ℕ) :
    blockCount bound = (bitLength bound + 256) ⌈/⌉ 256 := by
  rw [blockCount, outputBits, Nat.ceilDiv_eq_add_pred_div]
  rfl

namespace Curve

variable (c : Curve)

/-- The right side `x³ + a·x + b` of the equation is a square modulo the prime, and not zero. -/
def IsHit (x : ℕ) : Prop :=
  ¬ c.prime ∣ x ^ 3 + c.equation.a * x + c.equation.b ∧
    ∃ y, y ^ 2 ≡ x ^ 3 + c.equation.a * x + c.equation.b [MOD c.prime]

/-- **The square test finds the hits.** -/
theorem isSquare_rightSide_iff_isHit (x : ℕ) : c.isSquare (c.rightSide x) = true ↔ c.IsHit x := by
  simp only [isSquare_rightSide_iff, IsHit, modEq_rightSide_iff]
  refine (and_iff_right fun hdvd => ?_).symm
  have hzero := (ZMod.natCast_eq_zero_iff _ c.equation.p).2 hdvd
  push_cast at hzero
  exact Weierstrass.Regular.rightSide_ne_zero _ hzero

theorem firstHit_iff {m : Bytes} {t : ℕ} :
    c.FirstHit m t ↔
      c.IsHit (c.candidate m t) ∧ ∀ i < t, ¬ c.IsHit (c.candidate m i) := by
  simp only [← isSquare_rightSide_iff_isHit, Bool.not_eq_true]
  exact ⟨fun h => ⟨h.hit, h.miss⟩, fun h => ⟨h.1, h.2⟩⟩

/-- The message has no candidate that is a hit. -/
theorem miss_of_forall_not_isHit {m : Bytes} (h : ∀ i, ¬ c.IsHit (c.candidate m i)) (i : ℕ) :
    c.isSquare (c.rightSide (c.candidate m i)) = false :=
  Bool.eq_false_iff.2 fun hi => h i ((c.isSquare_rightSide_iff_isHit _).1 hi)

/-- **A message is hashed to a point exactly when it has a hit.** -/
theorem exists_hashesTo_iff {m : Bytes} :
    (∃ P, c.HashesTo m P) ↔ ∃ i, c.IsHit (c.candidate m i) := by
  simp only [← isSquare_rightSide_iff_isHit]
  constructor
  · rintro ⟨P, t, ht, -⟩
    exact ⟨t, ht.hit⟩
  · rintro ⟨i, hi⟩
    obtain ⟨t, ht⟩ := exists_firstHit hi
    obtain ⟨y, hlift, -⟩ := c.exists_liftX (c.candidate_lt m t) ht.hit false
    exact ⟨_, t, ht, hlift⟩

/-- The even square roots of the right side are one. -/
theorem eq_of_even_roots {x y z : ℕ} (hy : c.equation.Contains (.affine x y)) (hy2 : y % 2 = 0)
    (hz : z < c.prime) (hz2 : z % 2 = 0)
    (hroot : z ^ 2 ≡ x ^ 3 + c.equation.a * x + c.equation.b [MOD c.prime]) : z = y := by
  refine c.eq_of_contains_of_mod_two ?_ hy (hz2.trans hy2.symm)
  rw [Weierstrass.contains_affine_iff] at hy ⊢
  exact ⟨hy.1, hz, c.modEq_rightSide_iff.1 hroot⟩

/-- Where there is no hit, no limit on the search would be large enough. -/
theorem run_hashToPoint_of_miss {m : Bytes} (h : ∀ i, ¬ c.IsHit (c.candidate m i)) (s : Scratch) :
    ∃ s', (c.hashToPoint m).run s = .error .endlessSearch s' := by
  rw [run_hashToPoint]
  exact c.run_searchPoint_of_miss (c.miss_of_forall_not_isHit h) c.prime 0 _

/-- **The first hit of the chain.**  The chain starts with the oracle's value at the message and
goes on with its value at each candidate in as few bytes as possible.  Hashing returns exactly if
the chain has a hit, and then, from every scratch, the point over the first hit `t` whose second
coordinate is the one even square root; the oracle has then been run `t + 1` times, and nothing else
has changed.  The point is finite and on the curve, and its compressed form has the tag 2 and is
read back.  There is no other failure than an endless search, which is one at any limit. -/
theorem hashed_to_first_hit (m : Bytes) :
    ((∀ s, (Metered.oracleBelow m c.prime).result s = .ok (c.candidate m 0)) ∧
      ∀ i s, (Metered.oracleBelow (Bytes.ofNat (c.candidate m i)) c.prime).result s =
        .ok (c.candidate m (i + 1))) ∧
    (∀ s, (∃ P s', (c.hashToPoint m).run s = .ok P s') ↔ ∃ i, c.IsHit (c.candidate m i)) ∧
    (∀ t, c.IsHit (c.candidate m t) → (∀ i < t, ¬ c.IsHit (c.candidate m i)) →
      ∃ y b, (∀ s, (c.hashToPoint m).run s = .ok (.affine (c.candidate m t) y)
          { s with opCount := s.opCount + (t + 1) * ((bitLength c.prime + 256) ⌈/⌉ 256) }) ∧
        (∀ z, z = y ↔ z < c.prime ∧ z % 2 = 0 ∧
          z ^ 2 ≡ c.candidate m t ^ 3 + c.equation.a * c.candidate m t + c.equation.b
            [MOD c.prime]) ∧
        c.equation.Contains (.affine (c.candidate m t) y) ∧
        c.encodePoint (.affine (c.candidate m t) y) = .ok b ∧ b.head? = some 2 ∧
        c.decodePoint (.bytes b) = .ok (.affine (c.candidate m t) y)) ∧
    ∀ s f s', (c.hashToPoint m).run s = .error f s' → f = .endlessSearch ∧
      ∀ limit s₁, ∃ s₂, (c.searchPoint limit (c.candidate m 0)).run s₁ =
        .error .endlessSearch s₂ := by
  refine ⟨⟨fun s => ?_, fun i s => ?_⟩, fun s => ?_, fun t ht hmiss => ?_, fun s f s' hrun => ?_⟩
  · exact Metered.result_eq_ok (Metered.run_oracleBelow m c.prime s)
  · exact Metered.result_eq_ok (Metered.run_oracleBelow _ c.prime s)
  · rw [← exists_hashesTo_iff]
    exact exists_congr fun P => c.exists_run_hashToPoint_iff m P s
  · have hfirst := c.firstHit_iff.2 ⟨ht, hmiss⟩
    obtain ⟨y, hlift, hcontains, hpar⟩ :=
      c.exists_liftX (c.candidate_lt m t) hfirst.hit false
    have heven : y % 2 = 0 := by
      by_contra hodd
      exact Bool.false_ne_true (hpar.1 (by omega))
    have hencode := c.encodePoint_affine (c.candidate_lt m t) y
    refine ⟨y, _, fun s => ?_, fun z => ⟨?_, ?_⟩, hcontains, hencode, ?_, ?_⟩
    · rw [← Oracle.blockCount_eq_ceilDiv]
      exact c.run_hashToPoint_of_firstHit hfirst hlift s
    · rintro rfl
      obtain ⟨-, hlt, hroot⟩ := c.equation.contains_affine_iff.1 hcontains
      exact ⟨hlt, heven, c.modEq_rightSide_iff.2 hroot⟩
    · rintro ⟨hz, hz2, hroot⟩
      exact c.eq_of_even_roots hcontains heven hz hz2 hroot
    · rw [tag, if_pos heven]
      rfl
    · rw [c.decodePoint_eq rfl]
      exact c.pointOfBytes_eq_ok_iff.2 ⟨hcontains, hencode⟩
  · have hmiss : ∀ i, ¬ c.IsHit (c.candidate m i) := by
      intro i hi
      obtain ⟨P, hP⟩ := c.exists_hashesTo_iff.2 ⟨i, hi⟩
      obtain ⟨s₁, hs₁⟩ := (c.exists_run_hashToPoint_iff m P s).2 hP
      rw [hs₁] at hrun
      cases hrun
    obtain ⟨s₁, hs₁⟩ := c.run_hashToPoint_of_miss hmiss s
    rw [hs₁] at hrun
    cases hrun
    exact ⟨rfl, fun limit => c.run_searchPoint_of_miss (c.miss_of_forall_not_isHit hmiss) limit 0⟩

/-- On the second curve two candidates for the empty message are passed over. -/
theorem firstHit_empty : secp224r1.FirstHit [] 2 where
  hit := by decide +kernel
  miss := by decide +kernel

theorem hashed_to_first_hit_empty :
    ∃ y b, secp224r1.IsHit (secp224r1.candidate [] 2) ∧
      ¬ secp224r1.IsHit (secp224r1.candidate [] 0) ∧
      (secp224r1.hashToPoint []).run {} =
        .ok (.affine (secp224r1.candidate [] 2) y) { opCount := 6 } ∧
      y % 2 = 0 ∧ secp224r1.encodePoint (.affine (secp224r1.candidate [] 2) y) = .ok b ∧
      b.head? = some 2 ∧
      secp224r1.decodePoint (.bytes b) = .ok (.affine (secp224r1.candidate [] 2) y) := by
  obtain ⟨hhit, hmiss⟩ := secp224r1.firstHit_iff.1 firstHit_empty
  obtain ⟨y, b, hrun, hroot, -, hencode, htag, hread⟩ :=
    (hashed_to_first_hit secp224r1 []).2.2.1 2 hhit hmiss
  exact ⟨y, b, hhit, hmiss 0 (by decide), hrun {}, ((hroot y).1 rfl).2.1, hencode, htag, hread⟩

end Curve

end CurveLock

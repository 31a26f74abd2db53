import CurveLock.Curve.HashToPoint
import CurveLock.Proofs.Curve.Compressed
import CurveLock.Proofs.Hash.Oracle
import Mathlib.Data.Finset.Card

/-!
# Where messages are hashed to

The search stops at the first candidate that passes the square test, and takes the even point over
it (`Curve.exists_run_hashToPoint_iff`).  The candidates after one depend on nothing else
(`Curve.candidate_add_eq`), so a message with a candidate that passes has one among the first `p`,
and the limit on the search is never what ends it.
-/

namespace CurveLock

namespace Curve

variable (c : Curve)

/-! ### The chain of candidates -/

theorem candidate_lt (m : Bytes) (t : ℕ) : c.candidate m t < c.prime := by
  cases t <;> exact Oracle.value_lt _ c.prime_prime.pos

theorem candidate_succ (m : Bytes) (i : ℕ) :
    c.candidate m (i + 1) = Oracle.value (Bytes.ofNat (c.candidate m i)) c.prime := rfl

/-- From equal candidates on the chains are equal. -/
theorem candidate_add_eq {m m' : Bytes} {i j : ℕ} (h : c.candidate m i = c.candidate m' j) (k : ℕ) :
    c.candidate m (i + k) = c.candidate m' (j + k) := by
  induction k with
  | zero => exact h
  | succ k ih =>
    rw [← Nat.add_assoc, ← Nat.add_assoc, candidate_succ, candidate_succ, ih]

/-- Candidate `t` of a message is the first that passes the square test. -/
structure FirstHit (m : Bytes) (t : ℕ) : Prop where
  hit : c.isSquare (c.rightSide (c.candidate m t)) = true
  miss : ∀ i < t, c.isSquare (c.rightSide (c.candidate m i)) = false

variable {c}

theorem FirstHit.le {m : Bytes} {t i : ℕ} (h : c.FirstHit m t)
    (hi : c.isSquare (c.rightSide (c.candidate m i)) = true) : t ≤ i := by
  by_contra hlt
  rw [h.miss i (not_le.1 hlt)] at hi
  cases hi

theorem FirstHit.unique {m : Bytes} {t t' : ℕ} (h : c.FirstHit m t) (h' : c.FirstHit m t') :
    t = t' :=
  le_antisymm (h.le h'.hit) (h'.le h.hit)

/-- **A first hit comes before a candidate is repeated.** -/
theorem FirstHit.lt_prime {m : Bytes} {t : ℕ} (h : c.FirstHit m t) : t < c.prime := by
  by_contra hle
  obtain ⟨i, hi, j, hj, hne, heq⟩ : ∃ i ∈ Finset.range (t + 1), ∃ j ∈ Finset.range (t + 1),
      i ≠ j ∧ c.candidate m i = c.candidate m j := by
    refine Finset.exists_ne_map_eq_of_card_lt_of_maps_to (t := Finset.range c.prime) ?_ ?_
    · rw [Finset.card_range, Finset.card_range]
      omega
    · intro i _
      exact Finset.mem_coe.2 (Finset.mem_range.2 (c.candidate_lt m i))
  -- the later of the two equal candidates could be left out on the way to the hit
  have earlier : ∀ {i j : ℕ}, i < j → j ≤ t → c.candidate m i ≠ c.candidate m j := by
    intro i j hij hjt heq
    have hhit := h.hit
    have hcand := c.candidate_add_eq heq (t - j)
    rw [Nat.add_sub_cancel' hjt] at hcand
    rw [← hcand] at hhit
    have := h.le hhit
    omega
  rw [Finset.mem_range] at hi hj
  rcases lt_or_gt_of_ne hne with hlt | hgt
  · exact earlier hlt (by omega) heq
  · exact earlier hgt (by omega) heq.symm

theorem exists_firstHit {m : Bytes} {i : ℕ}
    (hi : c.isSquare (c.rightSide (c.candidate m i)) = true) : ∃ t, c.FirstHit m t := by
  have hex : ∃ i, c.isSquare (c.rightSide (c.candidate m i)) = true := ⟨i, hi⟩
  exact ⟨Nat.find hex, Nat.find_spec hex, fun j hj => Bool.eq_false_iff.2 (Nat.find_min hex hj)⟩

variable (c)

/-! ### The search -/

/-- What a message is hashed to: the even point over its first hit. -/
def HashesTo (m : Bytes) (P : Point) : Prop :=
  ∃ t, c.FirstHit m t ∧ c.liftX (c.candidate m t) false = .ok P

theorem run_searchPoint_of_isSquare {x : ℕ} (h : c.isSquare (c.rightSide x) = true) {P : Point}
    (hP : c.liftX x false = .ok P) (limit : ℕ) (s : Scratch) :
    (c.searchPoint (limit + 1) x).run s = .ok P s := by
  rw [liftX] at hP
  rw [searchPoint]
  simp only [h, if_true] at hP ⊢
  rcases hy : c.root (c.rightSide x) with f | y
  · rw [hy] at hP
    cases hP
  · rw [hy] at hP
    obtain rfl := Except.ok.inj hP
    rfl

theorem run_searchPoint_of_not_isSquare {x : ℕ} (h : c.isSquare (c.rightSide x) = false)
    (limit : ℕ) (s : Scratch) :
    (c.searchPoint (limit + 1) x).run s =
      (c.searchPoint limit (Oracle.value (Bytes.ofNat x) c.prime)).run
        { s with opCount := s.opCount + Oracle.blockCount c.prime } := by
  rw [searchPoint]
  simp only [h, Bool.false_eq_true, if_false]
  rw [EStateM.run_bind, Metered.run_oracleBelow]

theorem run_searchPoint_of_firstHit {m : Bytes} {P : Point} {t : ℕ} (h : c.FirstHit m t)
    (hP : c.liftX (c.candidate m t) false = .ok P) (k : ℕ) :
    ∀ (i limit : ℕ) (s : Scratch), i + k = t → k < limit →
      (c.searchPoint limit (c.candidate m i)).run s =
        .ok P { s with opCount := s.opCount + k * Oracle.blockCount c.prime } := by
  induction k with
  | zero =>
    rintro i (_ | limit) s rfl hlimit
    · omega
    rw [Nat.add_zero] at h hP
    rw [c.run_searchPoint_of_isSquare h.hit hP, Nat.zero_mul]
    rfl
  | succ k ih =>
    rintro i (_ | limit) s rfl hlimit
    · omega
    rw [c.run_searchPoint_of_not_isSquare (h.miss i (by omega)), ← candidate_succ,
      ih (i + 1) limit _ (by omega) (by omega), Nat.succ_mul, Nat.add_assoc,
      Nat.add_comm (Oracle.blockCount c.prime)]

theorem run_searchPoint_of_miss {m : Bytes}
    (h : ∀ i, c.isSquare (c.rightSide (c.candidate m i)) = false) (limit : ℕ) :
    ∀ (i : ℕ) (s : Scratch), ∃ s', (c.searchPoint limit (c.candidate m i)).run s =
      .error .endlessSearch s' := by
  induction limit with
  | zero => exact fun i s => ⟨s, rfl⟩
  | succ limit ih =>
    intro i s
    rw [c.run_searchPoint_of_not_isSquare (h i), ← candidate_succ]
    exact ih (i + 1) _

theorem run_hashToPoint (m : Bytes) (s : Scratch) :
    (c.hashToPoint m).run s = (c.searchPoint c.prime (c.candidate m 0)).run
      { s with opCount := s.opCount + Oracle.blockCount c.prime } := by
  rw [hashToPoint, EStateM.run_bind, Metered.run_oracleBelow, candidate]

/-- Every candidate up to the first hit costs one run of the oracle. -/
theorem run_hashToPoint_of_firstHit {m : Bytes} {P : Point} {t : ℕ} (h : c.FirstHit m t)
    (hP : c.liftX (c.candidate m t) false = .ok P) (s : Scratch) :
    (c.hashToPoint m).run s =
      .ok P { s with opCount := s.opCount + (t + 1) * Oracle.blockCount c.prime } := by
  rw [run_hashToPoint, c.run_searchPoint_of_firstHit h hP t 0 c.prime _ (Nat.zero_add t) h.lt_prime,
    Nat.succ_mul, Nat.add_assoc, Nat.add_comm (Oracle.blockCount c.prime)]

/-- **A message is hashed to the even point over its first hit, whatever the scratch.** -/
theorem exists_run_hashToPoint_iff (m : Bytes) (P : Point) (s : Scratch) :
    (∃ s', (c.hashToPoint m).run s = .ok P s') ↔ c.HashesTo m P := by
  constructor
  · rintro ⟨s', hrun⟩
    by_cases hex : ∃ i, c.isSquare (c.rightSide (c.candidate m i)) = true
    · obtain ⟨i, hi⟩ := hex
      obtain ⟨t, ht⟩ := exists_firstHit hi
      obtain ⟨y, hlift, -⟩ := c.exists_liftX (c.candidate_lt m t) ht.hit false
      -- the program returns this point, so it is `P`
      rw [c.run_hashToPoint_of_firstHit ht hlift] at hrun
      injection hrun with hP
      exact ⟨t, ht, hP ▸ hlift⟩
    · have hmiss : ∀ i, c.isSquare (c.rightSide (c.candidate m i)) = false :=
        fun i => Bool.eq_false_iff.2 fun hi => hex ⟨i, hi⟩
      obtain ⟨s'', hend⟩ := c.run_searchPoint_of_miss hmiss c.prime 0
        { s with opCount := s.opCount + Oracle.blockCount c.prime }
      rw [run_hashToPoint, hend] at hrun
      cases hrun
  · rintro ⟨t, ht, hP⟩
    exact ⟨_, c.run_hashToPoint_of_firstHit ht hP s⟩

variable {c}

theorem HashesTo.unique {m : Bytes} {P Q : Point} (hP : c.HashesTo m P) (hQ : c.HashesTo m Q) :
    P = Q := by
  obtain ⟨t, ht, hP⟩ := hP
  obtain ⟨t', ht', hQ⟩ := hQ
  obtain rfl := ht.unique ht'
  exact Except.ok.inj (hP.symm.trans hQ)

/-- A message is hashed to a finite point of the curve. -/
theorem HashesTo.finite {m : Bytes} {P : Point} (h : c.HashesTo m P) :
    c.equation.Contains P ∧ P ≠ .infinity := by
  obtain ⟨t, ht, hP⟩ := h
  obtain ⟨y, hlift, hcontains, -⟩ := c.exists_liftX (c.candidate_lt m t) ht.hit false
  obtain rfl := Except.ok.inj (hP.symm.trans hlift)
  exact ⟨hcontains, Point.noConfusion⟩

/-! ### Plaintexts -/

/-- A plaintext that is hashed to a point. -/
def Hashes (c : Curve) (m : Datum) (P : Point) : Prop :=
  ∃ message s s', m.plaintext = .ok message ∧ (c.hashToPoint message).run s = .ok P s'

theorem hashes_iff {m : Datum} {P : Point} :
    c.Hashes m P ↔ ∃ message, m.plaintext = .ok message ∧ c.HashesTo message P := by
  constructor
  · rintro ⟨message, s, s', hm, hP⟩
    exact ⟨message, hm, (c.exists_run_hashToPoint_iff message P s).1 ⟨s', hP⟩⟩
  · rintro ⟨message, hm, h⟩
    obtain ⟨s', hs'⟩ := (c.exists_run_hashToPoint_iff message P {}).2 h
    exact ⟨message, {}, s', hm, hs'⟩

theorem Hashes.exists_coordinates {m : Datum} {P : Point} (h : c.Hashes m P) :
    ∃ A : c.equation.Group, A ≠ 0 ∧ P = c.equation.coordinates A := by
  obtain ⟨message, -, hP⟩ := hashes_iff.1 h
  obtain ⟨hcontains, hne⟩ := hP.finite
  obtain ⟨A, rfl⟩ := c.equation.contains_iff.1 hcontains
  exact ⟨A, mt c.equation.coordinates_eq_infinity_iff.2 hne, rfl⟩

theorem Hashes.unique {m : Datum} {P Q : Point} (hP : c.Hashes m P) (hQ : c.Hashes m Q) :
    P = Q := by
  obtain ⟨message, hm, hP⟩ := hashes_iff.1 hP
  obtain ⟨message', hm', hQ⟩ := hashes_iff.1 hQ
  obtain rfl := Except.ok.inj (hm.symm.trans hm')
  exact hP.unique hQ

end Curve

end CurveLock

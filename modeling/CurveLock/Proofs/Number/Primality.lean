import CurveLock.Proofs.Number.Power
import Mathlib.FieldTheory.Finite.Basic
import Mathlib.Data.List.Prime

/-!
# Certificates of primality

Pocklington's test proves `n` prime from a part `F` of `n - 1` with `n < F²` whose prime divisors
are known, and a witness `a` with `a ^ (n - 1) = 1` modulo `n` such that for every prime `q`
dividing `F` the number `a ^ ((n - 1) / q) - 1` has no factor in common with `n`
(`prime_of_factored_part`).

A certificate is a list of entries, one for each prime that is too large for trial division, in
which the primes of every entry have entries of their own before it.  `Certificate.check` evaluates
the test, and `Certificate.prime_of_check` says that whatever number it accepts is prime.
-/

namespace CurveLock

/-- **Pocklington's test.**  In the field of the least prime factor of `n` the power
`a ^ ((n - 1) / F)` has order `F`, so that this factor is larger than the root of `n`. -/
theorem prime_of_factored_part {n a F : ℕ} (hn : 1 < n) (hF : F ∣ n - 1) (large : n < F * F)
    (power : (a : ZMod n) ^ (n - 1) = 1)
    (apart : ∀ q, q.Prime → q ∣ F → IsUnit ((a : ZMod n) ^ ((n - 1) / q) - 1)) : n.Prime := by
  by_contra composite
  have hr : n.minFac.Prime := Nat.minFac_prime hn.ne'
  have : Fact n.minFac.Prime := ⟨hr⟩
  let φ : ZMod n →+* ZMod n.minFac := ZMod.castHom n.minFac_dvd (ZMod n.minFac)
  obtain ⟨m, hm⟩ := hF
  have hF0 : 0 < F := by
    rcases Nat.eq_zero_or_pos F with rfl | h
    · omega
    · exact h
  let b : ZMod n.minFac := φ a ^ m
  have hb : b ^ F = 1 := by
    rw [← pow_mul, mul_comm, ← hm, ← map_pow, power, map_one]
  have order : orderOf b = F := by
    refine orderOf_eq_of_pow_and_pow_div_prime hF0 hb fun q hq hqF h1 => ?_
    have split : m * (F / q) = (n - 1) / q := by
      rw [hm, mul_comm F, Nat.mul_div_assoc _ hqF]
    have unit := (apart q hq hqF).map φ
    rw [map_sub, map_pow, map_one, ← split, pow_mul] at unit
    exact unit.ne_zero (sub_eq_zero.2 h1)
  have hb0 : b ≠ 0 := by
    intro h0
    rw [h0, zero_pow hF0.ne'] at hb
    exact zero_ne_one hb
  have hle : F ≤ n.minFac - 1 :=
    order ▸ Nat.le_of_dvd (by have := hr.two_le; omega) (ZMod.orderOf_dvd_card_sub_one hb0)
  have hsq : n.minFac * n.minFac ≤ n := by
    simpa [sq] using Nat.minFac_sq_le_self (by omega) composite
  have : F * F ≤ n.minFac * n.minFac := Nat.mul_le_mul (by omega) (by omega)
  omega

/-! ### Trial division -/

/-- None of the numbers from `2` to `k + 1` whose square is at most `n` divides `n`. -/
def noDivisor (n : ℕ) : ℕ → Bool
  | 0 => true
  | k + 1 => (decide (n < (k + 2) * (k + 2)) || n % (k + 2) != 0) && noDivisor n k

/-- Primality by trial division, for numbers below `2 ^ 14`. -/
def isSmallPrime (n : ℕ) : Bool := decide (1 < n) && decide (n < 128 * 128) && noDivisor n 126

theorem mod_ne_zero_of_noDivisor {n k d : ℕ} (h : noDivisor n k = true) (h2 : 2 ≤ d)
    (hd : d ≤ k + 1) (hsq : d * d ≤ n) : n % d ≠ 0 := by
  induction k with
  | zero => omega
  | succ k ih =>
    simp only [noDivisor, Bool.and_eq_true, Bool.or_eq_true, decide_eq_true_eq, bne_iff_ne] at h
    rcases Nat.lt_or_ge d (k + 2) with hlt | hge
    · exact ih h.2 (by omega)
    · obtain rfl : d = k + 2 := by omega
      exact h.1.resolve_left (by omega)

theorem prime_of_isSmallPrime {n : ℕ} (h : isSmallPrime n = true) : n.Prime := by
  simp only [isSmallPrime, Bool.and_eq_true, decide_eq_true_eq] at h
  obtain ⟨⟨h1, hlt⟩, hdiv⟩ := h
  by_contra composite
  have hsq : n.minFac * n.minFac ≤ n := by
    simpa [sq] using Nat.minFac_sq_le_self (by omega) composite
  have h2 := (Nat.minFac_prime h1.ne').two_le
  have hle : n.minFac ≤ 127 := by
    by_contra hgt
    have : 128 * 128 ≤ n.minFac * n.minFac := Nat.mul_le_mul (by omega) (by omega)
    omega
  exact mod_ne_zero_of_noDivisor hdiv h2 (by omega) hsq
    (Nat.mod_eq_zero_of_dvd n.minFac_dvd)

/-! ### Certificates -/

/-- The data of one application of Pocklington's test. -/
structure Certificate.Entry where
  /-- The number that is proved prime. -/
  number : ℕ
  /-- The witness of the test. -/
  witness : ℕ
  /-- The primes of the factored part, each with its power. -/
  factors : List (ℕ × ℕ)

/-- A certificate: the primes of each entry are small or have an entry before it. -/
abbrev Certificate := List Certificate.Entry

namespace Certificate

/-- The factored part of the predecessor. -/
def Entry.part (e : Entry) : ℕ := (e.factors.map fun f => f.1 ^ f.2).prod

/-- Pocklington's test for one entry, where the numbers `known` have been proved prime. -/
def Entry.check (known : List ℕ) (e : Entry) : Bool :=
  let n := e.number
  decide (1 < n) && (n - 1) % e.part == 0 && decide (n < e.part * e.part) &&
    powMod e.witness (n - 1) n == 1 &&
    e.factors.all fun f =>
      (known.contains f.1 || isSmallPrime f.1) &&
        Nat.gcd (powMod e.witness ((n - 1) / f.1) n + (n - 1)) n == 1

/-- Checks the entries one after the other. -/
def check : List ℕ → Certificate → Bool
  | _, [] => true
  | known, e :: es => e.check known && check (e.number :: known) es

theorem isUnit_sub_one {n x : ℕ} (hn : 1 < n) (h : Nat.gcd (x + (n - 1)) n = 1) :
    IsUnit ((x : ZMod n) - 1) := by
  have cast : ((x + (n - 1) : ℕ) : ZMod n) = x - 1 := by
    rw [Nat.cast_add, Nat.cast_sub hn.le, ZMod.natCast_self]
    ring
  rw [← cast]
  exact (ZMod.isUnit_iff_coprime _ _).2 h

theorem Entry.prime_of_check {known : List ℕ} (hknown : ∀ q ∈ known, q.Prime) {e : Entry}
    (h : e.check known = true) : e.number.Prime := by
  simp only [Entry.check, Bool.and_eq_true, decide_eq_true_eq, beq_iff_eq, List.all_eq_true,
    Bool.or_eq_true, List.contains_iff_mem] at h
  obtain ⟨⟨⟨⟨hn, hpart⟩, large⟩, power⟩, hfactors⟩ := h
  refine prime_of_factored_part (a := e.witness) hn (Nat.dvd_of_mod_eq_zero hpart) large ?_ ?_
  · rw [← cast_powMod, power, Nat.cast_one]
  · intro q hq hqF
    -- a prime that divides the factored part is one of those listed
    obtain ⟨x, hx, hqx⟩ := (Prime.dvd_prod_iff hq.prime).1 hqF
    obtain ⟨f, hf, rfl⟩ := List.mem_map.1 hx
    obtain ⟨hf1, hgcd⟩ := hfactors f hf
    have hprime : f.1.Prime := hf1.elim (hknown f.1) prime_of_isSmallPrime
    obtain rfl : q = f.1 := (Nat.prime_dvd_prime_iff_eq hq hprime).1 (hq.dvd_of_dvd_pow hqx)
    rw [← cast_powMod]
    exact isUnit_sub_one hn hgcd

/-- **Every number of a certificate that passes the check is prime.** -/
theorem prime_of_check {es : Certificate} {known : List ℕ} (hknown : ∀ q ∈ known, q.Prime)
    (h : check known es = true) {p : ℕ} (hp : p ∈ es.map Entry.number) : p.Prime := by
  induction es generalizing known with
  | nil => cases hp
  | cons e es ih =>
    simp only [check, Bool.and_eq_true] at h
    have he := Entry.prime_of_check hknown h.1
    rcases List.mem_cons.1 hp with rfl | hp
    · exact he
    · refine ih (fun q hq => ?_) h.2 hp
      rcases List.mem_cons.1 hq with rfl | hq
      · exact he
      · exact hknown q hq

end Certificate

end CurveLock

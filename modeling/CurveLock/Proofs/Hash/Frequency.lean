import CurveLock.Proofs.Hash.Expansion
import CurveLock.Proofs.Number.Power
import Mathlib.Data.FinEnum
import Mathlib.Data.Fintype.BigOperators
import Mathlib.Data.Int.CardIntervalMod

/-!
# How often every outcome arises

Whatever the hash function is, its values are byte strings of 32 bytes (`Oracle.Digest`), and the
oracle turns as many of them as there are blocks into one outcome (`Oracle.outcome`).  Joined, the
tuples of digests are the numbers of `256 * k` bits, each of them once (`Oracle.joined_bijective`),
so counting tuples is counting numbers.  Shifting leaves every number of `bitLength bound + 256`
bits equally often (`Oracle.count_div`), and reducing these modulo the bound puts a quotient or one
more into every residue class (`Oracle.frequency_eq`).  The quotient has more than 256 bits, hence
the oracle is nearly uniform (`Oracle.nearly_uniform`).
-/

namespace CurveLock

namespace Oracle

/-- What a hash may be: any 32 bytes. -/
abbrev Digest := List.Vector UInt8 32

/-- The hashes of the first `k` blocks. -/
def digests (data : Bytes) {k : ℕ} (i : Fin k) : Digest :=
  ⟨sha256 (blockInput (i + 1) data), length_sha256 _⟩

/-- The outcome of the oracle when the hashes of its blocks are given. -/
def outcome (bound : ℕ) (t : Fin (blockCount bound) → Digest) : ℕ :=
  combine bound ((List.ofFn fun i => (t i).val).map Bytes.toNat)

/-- How many tuples of digests have the outcome `r`. -/
def frequency (bound r : ℕ) : ℕ :=
  (Finset.univ.filter fun t : Fin (blockCount bound) → Digest => outcome bound t = r).card

/-! ### Tuples of digests are numbers -/

section Joined

variable {k : ℕ}

/-- Digests joined to one number, the first of them on top. -/
def joined (t : Fin k → Digest) : ℕ :=
  concatenation ((List.ofFn fun i => (t i).val).map Bytes.toNat)

theorem toNat_digest_lt (d : Digest) : Bytes.toNat d.val < 2 ^ 256 := by
  have hlt := Bytes.toNat_lt d.val
  rwa [d.property, show (256 : ℕ) ^ 32 = 2 ^ 256 by norm_num] at hlt

theorem toNat_digest_injective : Function.Injective fun d : Digest => Bytes.toNat d.val := by
  intro d d' h
  refine Subtype.ext ?_
  have hlength : d.val.length = d'.val.length := d.property.trans d'.property.symm
  have hnumber : Bytes.toNat d.val = Bytes.toNat d'.val := h
  rw [← Bytes.ofNatWidth_toNat d.val, hlength, hnumber, Bytes.ofNatWidth_toNat]

theorem joined_eq_spelled (t : Fin k → Digest) :
    joined t = spelled (2 ^ 256) (List.ofFn fun i => Bytes.toNat (t i).val) := by
  rw [joined, concatenation_eq_spelled, List.map_ofFn]
  rfl

theorem lt_of_mem_digits {t : Fin k → Digest} :
    ∀ n ∈ List.ofFn fun i => Bytes.toNat (t i).val, n < 2 ^ 256 := by
  intro n hn
  obtain ⟨i, rfl⟩ := (List.mem_ofFn' _ _).1 hn
  exact toNat_digest_lt (t i)

theorem joined_lt (t : Fin k → Digest) : joined t < 2 ^ (256 * k) := by
  have hlt := spelled_lt (lt_of_mem_digits (t := t))
  rwa [← joined_eq_spelled, List.length_ofFn, ← pow_mul] at hlt

theorem joined_injective : Function.Injective (joined (k := k)) := by
  intro t t' h
  rw [joined_eq_spelled, joined_eq_spelled] at h
  have hdigits := eq_of_spelled_eq (by norm_num) (by rw [List.length_ofFn, List.length_ofFn])
    lt_of_mem_digits lt_of_mem_digits h
  have hfun := List.ofFn_injective hdigits
  exact funext fun i => toNat_digest_injective (congrFun hfun i)

theorem card_digest : Fintype.card Digest = 2 ^ 256 := by
  have byte : Fintype.card UInt8 = 256 := by decide +kernel
  rw [card_vector, byte]
  norm_num

/-- **Joining tuples of digests gives every number of that many bits once.** -/
theorem joined_bijective :
    Function.Bijective
      fun t : Fin k → Digest => (⟨joined t, joined_lt t⟩ : Fin (2 ^ (256 * k))) := by
  rw [Fintype.bijective_iff_injective_and_card]
  constructor
  · intro t t' h
    exact joined_injective (Fin.mk.inj h)
  · rw [Fintype.card_pi_const, card_digest, Fintype.card_fin, ← pow_mul]

/-- Counting tuples is counting numbers. -/
theorem card_filter_joined (P : ℕ → Prop) [DecidablePred P] :
    (Finset.univ.filter fun t : Fin k → Digest => P (joined t)).card =
      Nat.count P (2 ^ (256 * k)) := by
  rw [Nat.count_eq_card_filter_range]
  refine Finset.card_bij (fun t _ => joined t) ?_ (fun t _ t' _ h => joined_injective h) ?_
  · intro t ht
    exact Finset.mem_filter.2 ⟨Finset.mem_range.2 (joined_lt t), (Finset.mem_filter.1 ht).2⟩
  · intro n hn
    obtain ⟨hlt, hP⟩ := Finset.mem_filter.1 hn
    obtain ⟨t, ht⟩ := joined_bijective.2 ⟨n, Finset.mem_range.1 hlt⟩
    obtain rfl : joined t = n := Fin.mk.inj ht
    exact ⟨t, Finset.mem_filter.2 ⟨Finset.mem_univ t, hP⟩, rfl⟩

end Joined

/-! ### Shifting and reducing -/

/-- Every quotient by `m` arises from `m` numbers. -/
theorem count_div (P : ℕ → Prop) [DecidablePred P] {m : ℕ} (hm : 0 < m) (n : ℕ) :
    Nat.count (fun v => P (v / m)) (m * n) = m * Nat.count P n := by
  induction n with
  | zero => simp
  | succ n ih =>
    -- the last `m` numbers share the quotient `n`
    have group : ∀ i < m, (P ((m * n + i) / m) ↔ P n) := by
      intro i hi
      rw [Nat.mul_add_div hm, Nat.div_eq_of_lt hi, add_zero]
    rw [Nat.mul_succ, Nat.count_add, ih, Nat.count_succ, Nat.mul_add]
    congr 1
    split_ifs with hP
    · rw [mul_one, Nat.count_iff_forall]
      exact fun i hi => (group i hi).2 hP
    · rw [mul_zero, Nat.count_iff_forall_not]
      exact fun i hi h => hP ((group i hi).1 h)

theorem outcome_eq (bound : ℕ) (t : Fin (blockCount bound) → Digest) :
    outcome bound t = joined t / 2 ^ excessBits bound % bound := by
  rw [outcome, combine, Nat.shiftRight_eq_div_pow, joined]

/-- **How often an outcome arises**: the quotient for every residue, and one more for the lowest
ones. -/
theorem frequency_eq {bound r : ℕ} (hr : r < bound) :
    frequency bound r = 2 ^ excessBits bound *
      (2 ^ (bitLength bound + 256) / bound +
        if r < 2 ^ (bitLength bound + 256) % bound then 1 else 0) := by
  have hbits : 2 ^ (256 * blockCount bound) =
      2 ^ excessBits bound * 2 ^ (bitLength bound + 256) := by
    rw [← excessBits_add, pow_add]
  have hresidue : (fun v => v % bound = r) = fun v => v ≡ r [MOD bound] := by
    funext v
    rw [Nat.ModEq, Nat.mod_eq_of_lt hr]
  have hcount := Nat.count_modEq_card (2 ^ (bitLength bound + 256)) (Nat.zero_lt_of_lt hr) r
  rw [Nat.mod_eq_of_lt hr] at hcount
  rw [frequency]
  simp only [outcome_eq]
  rw [card_filter_joined (fun v => v / 2 ^ excessBits bound % bound = r), hbits,
    count_div (fun v => v % bound = r) (by positivity)]
  simp only [hresidue, hcount]

/-- The bound fits more than `2 ^ 256` times into the numbers that are reduced. -/
theorem le_quotient {bound : ℕ} (hbound : 0 < bound) :
    2 ^ 256 ≤ 2 ^ (bitLength bound + 256) / bound := by
  rw [Nat.le_div_iff_mul_le hbound, pow_add, mul_comm]
  exact Nat.mul_le_mul_right _ (lt_two_pow_bitLength bound).le

theorem le_frequency {bound r : ℕ} (hr : r < bound) :
    2 ^ excessBits bound * 2 ^ 256 ≤ frequency bound r := by
  rw [frequency_eq hr]
  exact Nat.mul_le_mul_left _ ((le_quotient (by omega)).trans (Nat.le_add_right _ _))

theorem frequency_le_add {bound r s : ℕ} (hr : r < bound) (hs : s < bound) :
    frequency bound r ≤ frequency bound s + 2 ^ excessBits bound := by
  rw [frequency_eq hr, frequency_eq hs, ← Nat.mul_succ]
  refine Nat.mul_le_mul_left _ ?_
  split_ifs <;> omega

theorem abs_frequency_sub_le {bound r s : ℕ} (hr : r < bound) (hs : s < bound) :
    |(frequency bound r : ℤ) - frequency bound s| ≤ 2 ^ excessBits bound := by
  have hrs := frequency_le_add hr hs
  have hsr := frequency_le_add hs hr
  rw [abs_sub_le_iff]
  constructor
  · rw [sub_le_iff_le_add']
    exact_mod_cast hrs
  · rw [sub_le_iff_le_add']
    exact_mod_cast hsr

theorem abs_frequency_sub_div_le {bound r s : ℕ} (hr : r < bound) (hs : s < bound) :
    |(frequency bound r : ℚ) - frequency bound s| / frequency bound s ≤ 1 / 2 ^ 256 := by
  have hdistance : |(frequency bound r : ℚ) - frequency bound s| ≤ 2 ^ excessBits bound := by
    exact_mod_cast abs_frequency_sub_le hr hs
  have hleast : (2 : ℚ) ^ excessBits bound * 2 ^ 256 ≤ frequency bound s := by
    exact_mod_cast le_frequency hs
  have hpos : (0 : ℚ) < frequency bound s := lt_of_lt_of_le (by positivity) hleast
  rw [div_le_div_iff₀ hpos (by positivity), one_mul]
  exact (mul_le_mul_of_nonneg_right hdistance (by positivity)).trans hleast

/-- Every outcome arises. -/
theorem exists_outcome_eq {bound r : ℕ} (hr : r < bound) : ∃ t, outcome bound t = r := by
  have hpos : 0 < frequency bound r := lt_of_lt_of_le (by positivity) (le_frequency hr)
  obtain ⟨t, ht⟩ := Finset.card_pos.1 hpos
  exact ⟨t, (Finset.mem_filter.1 ht).2⟩

/-- The oracle returns the outcome of the hashes of its blocks. -/
theorem result_oracle_eq_outcome {d : Datum} {data : Bytes} (hd : d.bytes? = some data) {bound : ℕ}
    (hbound : 0 < bound) (s : Scratch) :
    (Metered.oracle d (.int bound)).result s = .ok (outcome bound (digests data)) := by
  have hblocks : (List.ofFn fun i : Fin (blockCount bound) => (digests data i).val) =
      (inputs data (blockCount bound)).map sha256 := by
    rw [inputs, List.map_map, List.ofFn_eq_map, ← List.map_coe_finRange_eq_range, List.map_map]
    rfl
  rw [Metered.oracle_eq_oracleBelow hd hbound, Metered.result_eq_ok (Metered.run_oracleBelow _ _ s),
    value_eq_combine, outcome, hblocks]

/-- **The oracle is nearly uniform.**  On a byte string and with a positive bound it returns the
outcome of the hashes of its blocks.  Let any tuple of digests take their place, so that `excessBits
bound` of its bits are left out.  Then every outcome below the bound arises, and from at least `2 ^
excessBits bound * 2 ^ 256` tuples; the numbers of tuples for two outcomes differ by at most `2 ^
excessBits bound`, which is `2 ^ (-256)` of either at the most. -/
theorem nearly_uniform {bound : ℕ} (hbound : 0 < bound) :
    (∀ {d : Datum} {data : Bytes}, d.bytes? = some data → ∀ s,
      (Metered.oracle d (.int bound)).result s = .ok (outcome bound (digests data))) ∧
    excessBits bound + (bitLength bound + 256) = 256 * blockCount bound ∧
    (∀ t, outcome bound t < bound) ∧
    ∀ r < bound, (∃ t, outcome bound t = r) ∧
      2 ^ excessBits bound * 2 ^ 256 ≤ frequency bound r ∧
      ∀ s < bound, |(frequency bound r : ℤ) - frequency bound s| ≤ 2 ^ excessBits bound ∧
        |(frequency bound r : ℚ) - frequency bound s| / frequency bound s ≤ 1 / 2 ^ 256 := by
  refine ⟨fun hd => result_oracle_eq_outcome hd hbound, excessBits_add bound,
    fun t => Nat.mod_lt _ hbound, fun r hr =>
      ⟨exists_outcome_eq hr, le_frequency hr, fun s hs => ?_⟩⟩
  exact ⟨abs_frequency_sub_le hr hs, abs_frequency_sub_div_le hr hs⟩

theorem nearly_uniform_three :
    excessBits 3 = 254 ∧ 2 ^ 254 * 2 ^ 256 ≤ frequency 3 2 ∧
      |(frequency 3 2 : ℤ) - frequency 3 0| ≤ 2 ^ 254 ∧ ∃ t, outcome 3 t = 2 := by
  have hexcess : excessBits 3 = 254 := by decide
  obtain ⟨-, -, -, h⟩ := nearly_uniform (show 0 < 3 by decide)
  obtain ⟨hreached, hleast, hdistance⟩ := h 2 (by decide)
  have hzero := (hdistance 0 (by decide)).1
  rw [hexcess] at hleast hzero
  exact ⟨hexcess, hleast, hzero, hreached⟩

end Oracle

end CurveLock

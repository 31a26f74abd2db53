import CurveLock.Proofs.Bits
import CurveLock.Proofs.Datum
import CurveLock.Proofs.Hash.Oracle
import CurveLock.Proofs.Scratch
import Mathlib.Order.Bounds.Basic

/-!
# The bits that the random oracle reduces

The blocks of the random oracle, one after the other, are a byte string of any length that is asked
for (`Oracle.expansion`).  The oracle hashes the inputs of as many blocks as it needs and no others
(`Metered.oracle_eq`), and its outcome is the number that the first bits of the expansion spell,
reduced modulo the bound (`Metered.oracle_first_bits`).
-/

namespace CurveLock

@[simp] theorem length_sha256 (message : Bytes) : (sha256 message).length = 32 := by
  simp [sha256, Sha256.digest, Sha256.State.words, Sha256.bytesOfWord]

namespace Oracle

/-! ### How many blocks there are -/

theorem blockCount_le_iff {bound j : ℕ} :
    blockCount bound ≤ j ↔ bitLength bound + 256 ≤ 256 * j := by
  rw [blockCount, outputBits]
  omega

/-- The blocks supply the output bits and the ones that are left out. -/
theorem excessBits_add (bound : ℕ) :
    excessBits bound + (bitLength bound + 256) = 256 * blockCount bound := by
  have henough := blockCount_le_iff.1 (le_refl (blockCount bound))
  rw [excessBits, outputBits]
  omega

theorem excessBits_lt (bound : ℕ) : excessBits bound < 256 := by
  rw [excessBits, blockCount, outputBits]
  omega

/-! ### The blocks one after the other -/

/-- What is hashed for the first `k` blocks. -/
def inputs (data : Bytes) (k : ℕ) : List Bytes :=
  (List.range k).map fun i => blockInput (i + 1) data

/-- The first `k` blocks as one byte string.  Block `i`, counted from one, is the hash of the
base-256 digits of `i`, the highest first, followed by the data. -/
def expansion (data : Bytes) (k : ℕ) : Bytes :=
  (List.range k).flatMap fun i =>
    sha256 (((Nat.digits 256 (i + 1)).map UInt8.ofNat).reverse ++ data)

theorem expansion_eq_flatten (data : Bytes) (k : ℕ) :
    expansion data k = ((inputs data k).map sha256).flatten := by
  rw [expansion, inputs, List.map_map, List.flatMap_def]
  refine congrArg List.flatten (List.map_congr_left fun i _ => ?_)
  rw [Function.comp_apply, blockInput, Bytes.ofNat_eq_digits]

@[simp] theorem length_expansion (data : Bytes) (k : ℕ) : (expansion data k).length = 32 * k := by
  simp [expansion, List.length_flatMap, mul_comm]

@[simp] theorem length_inputs (data : Bytes) (k : ℕ) : (inputs data k).length = k := by
  rw [inputs, List.length_map, List.length_range]

theorem expansion_add (data : Bytes) (k i : ℕ) :
    ∃ rest, expansion data (k + i) = expansion data k ++ rest := by
  rw [expansion, expansion, List.range_add, List.flatMap_append]
  exact ⟨_, rfl⟩

/-- Bits that are already there stay the same when the expansion goes on. -/
theorem take_bits_expansion (data : Bytes) {n k j : ℕ} (hn : n ≤ 256 * k) (hkj : k ≤ j) :
    (expansion data j).bits.take n = (expansion data k).bits.take n := by
  obtain ⟨i, rfl⟩ := Nat.exists_eq_add_of_le hkj
  obtain ⟨rest, hrest⟩ := expansion_add data k i
  rw [hrest, Bytes.bits, List.flatMap_append]
  refine List.take_append_of_le_length ?_
  rw [← Bytes.bits, Bytes.length_bits, length_expansion]
  omega

/-! ### The outcome -/

/-- **Blocks are joined as digits of 256 bits.** -/
theorem concatenation_eq_spelled (blocks : List ℕ) :
    concatenation blocks = spelled (2 ^ 256) blocks := by
  have step : (fun acc b : ℕ => (acc <<< 256) + b) = fun acc b => 2 ^ 256 * acc + b := by
    funext acc b
    rw [Nat.shiftLeft_eq, mul_comm]
  rw [concatenation, spelled, step]

/-- The joined blocks are the number that the expansion spells. -/
theorem concatenation_digests (data : Bytes) (k : ℕ) :
    concatenation (((inputs data k).map sha256).map Bytes.toNat) = (expansion data k).toNat := by
  have hlength : ∀ b ∈ (inputs data k).map sha256, b.length = 32 := by
    intro b hb
    obtain ⟨x, -, rfl⟩ := List.mem_map.1 hb
    exact length_sha256 x
  have radix : (256 : ℕ) ^ 32 = 2 ^ 256 := by norm_num
  rw [concatenation_eq_spelled, expansion_eq_flatten, Bytes.toNat_flatten hlength, radix]

theorem value_eq_combine (data : Bytes) (bound : ℕ) :
    value data bound =
      combine bound (((inputs data (blockCount bound)).map sha256).map Bytes.toNat) := by
  rw [value, inputs, List.map_map, List.map_map]
  rfl

/-- **The outcome is what the first bits of the expansion spell**, however far it is carried on. -/
theorem value_eq_numberOfBits (data : Bytes) {bound j : ℕ}
    (hj : bitLength bound + 256 ≤ 256 * j) :
    value data bound =
      numberOfBits ((expansion data j).bits.take (bitLength bound + 256)) % bound := by
  have henough := blockCount_le_iff.1 (le_refl (blockCount bound))
  have hexcess : excessBits bound = 8 * (32 * blockCount bound) - (bitLength bound + 256) := by
    have := excessBits_add bound
    omega
  rw [value_eq_combine, combine, concatenation_digests,
    take_bits_expansion data henough (blockCount_le_iff.2 hj), numberOfBits_take,
    Bytes.numberOfBits_bits, Bytes.length_bits, length_expansion, hexcess]

end Oracle

namespace Metered

/-- Hashing one input after the other. -/
theorem run_mapM_sha256 (xs : List Bytes) :
    ∀ s, (xs.mapM sha256).run s =
      .ok (xs.map CurveLock.sha256) { s with opCount := s.opCount + xs.length } := by
  induction xs with
  | nil => exact fun s => rfl
  | cons x xs ih =>
    intro s
    rw [List.mapM_cons, EStateM.run_bind, run_sha256]
    simp only [EStateM.run_bind, ih, EStateM.run_pure, List.map_cons, List.length_cons,
      Nat.add_assoc, Nat.add_comm 1]

theorem oracle_eq_oracleBelow {d : Datum} {data : Bytes} (hd : d.bytes? = some data) {n : ℕ}
    (hn : 0 < n) : oracle d (.int n) = oracleBelow data n := by
  have hbound : ¬ (n : ℤ) ≤ 0 := by omega
  have hsuffix : d.suffix = .ok data := by
    cases d with
    | bytes b | byteArray b =>
      obtain rfl := Option.some.inj hd
      rfl
    | _ => cases hd
  rw [oracle, Datum.isAtMost_int, decide_eq_false hbound]
  simp only [Datum.integer?, hsuffix]
  rfl

/-- **What the oracle hashes.**  The inputs of its blocks, one after the other, and nothing else. -/
theorem oracle_eq {d : Datum} {data : Bytes} (hd : d.bytes? = some data) {n : ℕ} (hn : 0 < n) :
    oracle d (.int n) = (do
      let digests ← (Oracle.inputs data (Oracle.blockCount n)).mapM sha256
      return Oracle.combine n (digests.map Bytes.toNat)) := by
  rw [oracle_eq_oracleBelow hd hn]
  refine eq_of_run_eq fun s => ?_
  rw [run_oracleBelow, Oracle.value_eq_combine, EStateM.run_bind, run_mapM_sha256,
    Oracle.length_inputs]
  rfl

/-- **The random oracle is what it is specified to be.**  On a byte string and with a positive bound
of `b` binary digits it hashes the inputs of as many blocks as supply `b + 256` bits, the least
number that does, so that at most 255 bits are left out; it counts one step for each.  It returns,
from every scratch, the number that the first `b + 256` bits of the blocks spell, reduced modulo the
bound. -/
theorem oracle_first_bits {d : Datum} {data : Bytes} (hd : d.bytes? = some data) {n : ℕ}
    (hn : 0 < n) :
    ∃ k r, IsLeast {j | bitLength n + 256 ≤ 256 * j} k ∧ 256 * k - (bitLength n + 256) ≤ 255 ∧
      oracle d (.int n) = (do
        let digests ← (Oracle.inputs data k).mapM sha256
        return Oracle.combine n (digests.map Bytes.toNat)) ∧
      (∀ s, (oracle d (.int n)).run s = .ok r { s with opCount := s.opCount + k }) ∧ r < n ∧
      ∀ j, bitLength n + 256 ≤ 256 * j →
        r = numberOfBits ((Oracle.expansion data j).bits.take (bitLength n + 256)) % n := by
  refine ⟨Oracle.blockCount n, Oracle.value data n, ⟨?_, fun j hj => ?_⟩, ?_, oracle_eq hd hn,
    fun s => ?_, Oracle.value_lt data hn, fun j hj => Oracle.value_eq_numberOfBits data hj⟩
  · exact Oracle.blockCount_le_iff.1 le_rfl
  · exact Oracle.blockCount_le_iff.2 hj
  · have hadd := Oracle.excessBits_add n
    have hlt := Oracle.excessBits_lt n
    omega
  · rw [oracle_eq_oracleBelow hd hn, run_oracleBelow]

theorem oracle_first_bits_byte :
    ∃ r, (Datum.byteArray []).bytes? = some [] ∧
      (oracle (.byteArray []) (.int 256)).run {} = .ok r { opCount := 2 } ∧
      r = numberOfBits ((Oracle.expansion [] 2).bits.take 265) % 256 ∧ r = 0xb7 := by
  obtain ⟨k, r, ⟨henough, hleast⟩, -, -, hrun, -, hr⟩ :=
    oracle_first_bits (d := .byteArray []) rfl (n := 256) (by decide)
  have hbits : bitLength 256 + 256 = 265 := by decide
  rw [Set.mem_ofPred_eq, hbits] at henough
  have hle : k ≤ 2 := hleast (by rw [Set.mem_ofPred_eq, hbits]; decide)
  obtain rfl : k = 2 := by omega
  have hvalue := hr 2 (by omega)
  rw [hbits] at hvalue
  refine ⟨r, rfl, hrun {}, hvalue, hvalue.trans ?_⟩
  decide +kernel

end Metered

end CurveLock

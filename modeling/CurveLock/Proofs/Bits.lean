import CurveLock.Proofs.Bytes
import CurveLock.Proofs.Number.Spelled

/-!
# Byte strings as strings of bits

A byte string is also a string of bits (`Bytes.bits`), eight to a byte and the highest first, which
spell the same number (`numberOfBits_bits`).  Its first bits are what is left when the others are
shifted out (`numberOfBits_take`).
-/

namespace CurveLock

/-- The number that bits spell, the highest first. -/
def numberOfBits (bits : List Bool) : ℕ := spelled 2 (bits.map Bool.toNat)

/-- The `width` lowest bits of a number, the highest of them first. -/
def lowBits (width n : ℕ) : List Bool := (List.range width).map fun i => n.testBit (width - 1 - i)

/-- The bits of a byte string. -/
def Bytes.bits (b : Bytes) : List Bool := b.flatMap fun x => lowBits 8 x.toNat

@[simp] theorem length_lowBits (width n : ℕ) : (lowBits width n).length = width := by
  rw [lowBits, List.length_map, List.length_range]

theorem lowBits_succ (width n : ℕ) :
    lowBits (width + 1) n = n.testBit width :: lowBits width n := by
  rw [lowBits, lowBits, List.range_succ_eq_map, List.map_cons, List.map_map]
  refine congrArg (n.testBit width :: ·) (List.map_congr_left fun i _ => congrArg n.testBit ?_)
  omega

theorem numberOfBits_lowBits (width n : ℕ) : numberOfBits (lowBits width n) = n % 2 ^ width := by
  induction width with
  | zero => rw [pow_zero, Nat.mod_one]; rfl
  | succ width ih =>
    rw [numberOfBits] at ih
    rw [lowBits_succ, numberOfBits, List.map_cons, spelled_cons, ih, List.length_map,
      length_lowBits,
      Nat.toNat_testBit, Nat.mod_pow_succ]
    ring

/-- **The first bits are what is left when the others are shifted out.** -/
theorem numberOfBits_take (bits : List Bool) (n : ℕ) :
    numberOfBits (bits.take n) = numberOfBits bits >>> (bits.length - n) := by
  have hbits : ∀ d ∈ bits.map Bool.toNat, d < 2 := by
    intro d hd
    obtain ⟨b, -, rfl⟩ := List.mem_map.1 hd
    exact b.toNat_lt
  rw [numberOfBits, List.map_take, spelled_take hbits, List.length_map, Nat.shiftRight_eq_div_pow]
  rfl

namespace Bytes

theorem toNat_eq_spelled (b : Bytes) : b.toNat = spelled 256 (b.map UInt8.toNat) := by
  rw [toNat, spelled, List.foldl_map]

@[simp] theorem length_bits (b : Bytes) : b.bits.length = 8 * b.length := by
  simp [bits, List.length_flatMap, mul_comm]

/-- **A byte string and its bits spell the same number.** -/
theorem numberOfBits_bits (b : Bytes) : numberOfBits b.bits = b.toNat := by
  have eight : ∀ ds ∈ b.map fun x => (lowBits 8 x.toNat).map Bool.toNat, ds.length = 8 := by
    intro ds hds
    obtain ⟨x, -, rfl⟩ := List.mem_map.1 hds
    rw [List.length_map, length_lowBits]
  have byte : ∀ x : UInt8, spelled 2 ((lowBits 8 x.toNat).map Bool.toNat) = x.toNat := by
    intro x
    exact (numberOfBits_lowBits 8 x.toNat).trans (Nat.mod_eq_of_lt x.toNat_lt)
  rw [numberOfBits, bits, List.map_flatMap, List.flatMap_def, spelled_flatten eight, List.map_map,
    toNat_eq_spelled]
  exact congrArg (spelled 256) (List.map_congr_left fun x _ => byte x)

/-- Byte strings of one length, one after the other, are digits in a radix of their own. -/
theorem toNat_flatten {k : ℕ} {bs : List Bytes} (h : ∀ b ∈ bs, b.length = k) :
    toNat bs.flatten = spelled (256 ^ k) (bs.map toNat) := by
  have groups : ∀ ds ∈ bs.map fun b => b.map UInt8.toNat, ds.length = k := by
    intro ds hds
    obtain ⟨b, hb, rfl⟩ := List.mem_map.1 hds
    rw [List.length_map, h b hb]
  rw [toNat_eq_spelled, List.map_flatten, spelled_flatten groups, List.map_map]
  exact congrArg (spelled (256 ^ k)) (List.map_congr_left fun b _ => (toNat_eq_spelled b).symm)

/-! ### The shortest form -/

theorem byteLength_of_pos {n : ℕ} (hn : 0 < n) : byteLength n = byteLength (n / 256) + 1 := by
  have step (w : ℕ) : byteLength n ≤ w + 1 ↔ byteLength (n / 256) ≤ w := by
    rw [byteLength_le_iff, byteLength_le_iff, pow_succ, Nat.div_lt_iff_lt_mul (by decide)]
  have hle := (step _).2 le_rfl
  rcases hw : byteLength n with _ | w
  · have hzero := lt_pow_byteLength n
    rw [hw, pow_zero] at hzero
    omega
  · have hge := (step w).1 hw.le
    omega

theorem ofNat_of_pos {n : ℕ} (hn : 0 < n) :
    ofNat n = ofNat (n / 256) ++ [UInt8.ofNat (n % 256)] := by
  rw [ofNat, byteLength_of_pos hn, ofNatWidth_succ, ofNat]

/-- **The shortest form lists the base-256 digits of the number, the highest first.** -/
theorem ofNat_eq_digits (n : ℕ) : ofNat n = ((Nat.digits 256 n).map UInt8.ofNat).reverse := by
  induction n using Nat.strongRecOn with
  | ind n ih =>
    rcases Nat.eq_zero_or_pos n with rfl | hn
    · rw [Nat.digits_zero]
      rfl
    · rw [ofNat_of_pos hn, ih (n / 256) (by omega), Nat.digits_def' (by decide) hn, List.map_cons,
        List.reverse_cons]

end Bytes

end CurveLock

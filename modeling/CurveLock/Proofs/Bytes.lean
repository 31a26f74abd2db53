import CurveLock.Arithmetic
import CurveLock.Proofs.Number.Power

/-!
# Byte strings of a fixed width are the numbers below a power of 256

`Bytes.ofNatWidth` and `Bytes.toNat` undo each other between numbers below `256 ^ width` and byte
strings of that length (`Bytes.toNat_ofNatWidth_of_lt`, `Bytes.ofNatWidth_toNat`), and `byteLength`
is the least width that fits (`byteLength_le_iff`).
-/

namespace CurveLock

theorem byteLength_le_iff {n w : ℕ} : byteLength n ≤ w ↔ n < 256 ^ w := by
  have power : 256 ^ w = 2 ^ (8 * w) := by rw [pow_mul, show 2 ^ 8 = 256 from rfl]
  rw [power, ← bitLength_le_iff, byteLength]
  omega

theorem lt_pow_byteLength (n : ℕ) : n < 256 ^ byteLength n := byteLength_le_iff.1 le_rfl

namespace Bytes

theorem toNat_ofNatWidth (width : ℕ) : ∀ n, toNat (ofNatWidth width n) = n % 256 ^ width := by
  induction width with
  | zero => intro n; rw [pow_zero, Nat.mod_one]; rfl
  | succ width ih =>
    intro n
    rw [ofNatWidth_succ, toNat_concat, ih, pow_succ', Nat.mod_mul, UInt8.toNat_ofNat',
      Nat.mod_eq_of_lt (Nat.mod_lt n (by decide)), add_comm]

theorem toNat_ofNatWidth_of_lt {width n : ℕ} (h : n < 256 ^ width) :
    toNat (ofNatWidth width n) = n := by
  rw [toNat_ofNatWidth, Nat.mod_eq_of_lt h]

theorem toNat_lt (b : Bytes) : toNat b < 256 ^ b.length := by
  induction b using List.reverseRecOn with
  | nil => exact one_pos
  | append_singleton b x ih =>
    rw [toNat_concat, List.length_append, List.length_singleton, pow_succ]
    have hx : x.toNat < 256 := x.toNat_lt
    omega

/-- **Reading and writing back at the same width changes nothing.** -/
theorem ofNatWidth_toNat (b : Bytes) : ofNatWidth b.length (toNat b) = b := by
  induction b using List.reverseRecOn with
  | nil => rfl
  | append_singleton b x ih =>
    have hx : x.toNat < 256 := x.toNat_lt
    rw [List.length_append, List.length_singleton, ofNatWidth_succ, toNat_concat]
    have quotient : (256 * toNat b + x.toNat) / 256 = toNat b := by omega
    have remainder : (256 * toNat b + x.toNat) % 256 = x.toNat := by omega
    rw [quotient, remainder, ih, UInt8.ofNat_toNat]

/-- **The byte string that a number is written as at a width.** -/
theorem eq_ofNatWidth_iff {b : Bytes} {w n : ℕ} (hn : n < 256 ^ w) :
    b = ofNatWidth w n ↔ b.length = w ∧ toNat b = n := by
  constructor
  · rintro rfl
    exact ⟨length_ofNatWidth w n, toNat_ofNatWidth_of_lt hn⟩
  · rintro ⟨rfl, rfl⟩
    exact (ofNatWidth_toNat b).symm

/-- **The shortest form spells the number.** -/
theorem toNat_ofNat (n : ℕ) : toNat (ofNat n) = n := toNat_ofNatWidth_of_lt (lt_pow_byteLength n)

theorem ofNat_injective : Function.Injective ofNat :=
  Function.LeftInverse.injective toNat_ofNat

end Bytes

/-- A number that fits is written at the width asked for. -/
theorem encodeInteger_width {n w : ℕ} (hw : (w : ℤ) < Datum.memoryLimit) (hn : n < 256 ^ w) :
    encodeInteger n (some w) = .ok (Bytes.ofNatWidth w n) := by
  have hlimit : Datum.memoryLimit ≤ Datum.widthLimit := by decide
  have hle : (byteLength n : ℤ) ≤ w := by exact_mod_cast byteLength_le_iff.2 hn
  rw [encodeInteger, if_neg (by omega)]
  simp only [encodeAt, Int.toNat_natCast]
  rw [if_neg (by omega), if_neg (by omega), if_pos ⟨by omega, by omega, hle⟩]

end CurveLock

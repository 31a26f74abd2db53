/-!
# Byte strings as big-endian numbers

A byte string is a list of bytes. Read most significant byte first it is a natural number
(`Bytes.toNat`), and a number is written back either with as few bytes as possible
(`Bytes.ofNat`) or at a fixed width (`Bytes.ofNatWidth`).

* `bitLength`, `byteLength`: how many binary and how many base-256 digits a number has;
* `Bytes.littleEndian`: the base-256 digits, least significant first, from which both written
  forms are made.
-/

namespace CurveLock

/-- A byte string. -/
abbrev Bytes := List UInt8

/-- The number of binary digits of `n`; zero has none. -/
def bitLength (n : Nat) : Nat := if n = 0 then 0 else n.log2 + 1

/-- The number of base-256 digits of `n`; zero has none. -/
def byteLength (n : Nat) : Nat := (bitLength n + 7) / 8

namespace Bytes

/-- The number that a byte string spells, most significant byte first. -/
def toNat (b : Bytes) : Nat := b.foldl (fun n x => 256 * n + x.toNat) 0

/-- The `width` lowest base-256 digits of a number, least significant first. -/
def littleEndian : (width : Nat) → Nat → Bytes
  | 0, _ => []
  | width + 1, n => UInt8.ofNat (n % 256) :: littleEndian width (n / 256)

/-- The number `n` in exactly `width` bytes; digits beyond the width are dropped. -/
def ofNatWidth (width n : Nat) : Bytes := (littleEndian width n).reverse

/-- The number `n` in as few bytes as possible; zero is the empty string. -/
def ofNat (n : Nat) : Bytes := ofNatWidth (byteLength n) n

/-! ### Width and value -/

@[simp] theorem length_littleEndian (width n : Nat) : (littleEndian width n).length = width := by
  induction width generalizing n with
  | zero => rfl
  | succ width ih => simp [littleEndian, ih]

@[simp] theorem length_ofNatWidth (width n : Nat) : (ofNatWidth width n).length = width := by
  simp [ofNatWidth]

@[simp] theorem length_ofNat (n : Nat) : (ofNat n).length = byteLength n := length_ofNatWidth _ _

/-- A last byte adds one base-256 digit. -/
theorem toNat_concat (b : Bytes) (x : UInt8) : toNat (b ++ [x]) = 256 * toNat b + x.toNat := by
  simp [toNat]

theorem ofNatWidth_succ (width n : Nat) :
    ofNatWidth (width + 1) n = ofNatWidth width (n / 256) ++ [UInt8.ofNat (n % 256)] := by
  simp [ofNatWidth, littleEndian]

end Bytes

end CurveLock

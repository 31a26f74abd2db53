import CurveLock.Datum.Modular
import CurveLock.Proofs.Bits
import CurveLock.Proofs.Curve.StoredKey
import CurveLock.Proofs.Refusal.Reports

/-!
# Integers as byte strings

At a given width an integer is written as the byte string of that length which spells it
(`encodeInteger_width_eq_ok_iff`), and without a width as the one that spells it and does not begin
with a zero (`encodeInteger_eq_ok_iff`).  An integer that has no such byte string is refused.  The
scalars of each curve are written and read at the width of its order
(`Curve.decodeScalar_eq_ok_iff`).
-/

namespace CurveLock

namespace Bytes

/-! ### The shortest form -/

theorem toNat_cons (x : UInt8) (b : Bytes) :
    toNat (x :: b) = x.toNat * 256 ^ b.length + toNat b := by
  rw [toNat_eq_spelled, toNat_eq_spelled, List.map_cons, spelled_cons, List.length_map]

/-- **Reading and writing back without a width removes the zeros in front.** -/
theorem ofNat_toNat (b : Bytes) : ofNat (toNat b) = b.dropWhile (· == 0) := by
  induction b with
  | nil => rfl
  | cons x b ih =>
    by_cases hx : x = 0
    · have hvalue : toNat (x :: b) = toNat b := by
        rw [toNat_cons, hx, UInt8.toNat_zero, zero_mul, zero_add]
      rw [hvalue, ih, List.dropWhile_cons_of_pos (by simpa using hx)]
    · have hpos : 0 < x.toNat := Nat.pos_of_ne_zero fun h => hx (UInt8.toNat_inj.1 h)
      -- the first byte is a digit, so the number does not fit in fewer bytes
      have hdigit : b.length < byteLength (toNat (x :: b)) := by
        have hle := Nat.le_mul_of_pos_left (256 ^ b.length) hpos
        rw [← not_le, byteLength_le_iff, toNat_cons]
        omega
      have hwidth : byteLength (toNat (x :: b)) = b.length + 1 :=
        le_antisymm (byteLength_le_iff.2 (toNat_lt (x :: b))) hdigit
      rw [List.dropWhile_cons_of_neg (by simpa using hx), ofNat, hwidth]
      exact ofNatWidth_toNat (x :: b)

/-- The shortest form does not begin with a zero. -/
theorem head?_ofNat_ne (n : ℕ) : (ofNat n).head? ≠ some 0 := by
  intro h
  have hdrop := List.head?_dropWhile_not (· == 0) (ofNat n)
  rw [← ofNat_toNat, toNat_ofNat, h] at hdrop
  exact absurd hdrop (by decide)

/-- **The shortest form of a number is the byte string without a leading zero that spells it.** -/
theorem eq_ofNat_iff {b : Bytes} {n : ℕ} : b = ofNat n ↔ toNat b = n ∧ b.head? ≠ some 0 := by
  constructor
  · rintro rfl
    exact ⟨toNat_ofNat n, head?_ofNat_ne n⟩
  · rintro ⟨rfl, hhead⟩
    rw [ofNat_toNat]
    rcases b with _ | ⟨x, b⟩
    · rfl
    · have hx : ¬ (x == 0) = true := fun h => hhead (congrArg some (eq_of_beq h))
      rw [List.dropWhile_cons, if_neg hx]

theorem length_ofNat_le {b : Bytes} {n : ℕ} (h : toNat b = n) : (ofNat n).length ≤ b.length := by
  rw [length_ofNat, byteLength_le_iff, ← h]
  exact toNat_lt b

theorem ofNat_eq_nil_iff {n : ℕ} : ofNat n = [] ↔ n = 0 := by
  rw [eq_comm, eq_ofNat_iff, and_iff_left (by decide), eq_comm]
  rfl

end Bytes

open Bytes

/-! ### Writing an integer -/

/-- An integer can be written in a message: it has at most `digitLimit` digits. -/
def Writable (v : ℤ) : Prop := v.natAbs < 10 ^ digitLimit

theorem writable_of_lt {v : ℤ} (h : v.natAbs < 10 ^ 11) : Writable v :=
  h.trans_le (pow_le_pow_right₀ (by decide) (by decide))

theorem writable_bitLength {n : ℕ} (h : Writable n) : Writable (bitLength n) :=
  (bitLength_le_iff.2 Nat.lt_two_pow_self).trans_lt h

theorem writable_of_lt_memoryLimit {w : ℕ} (h : (w : ℤ) < Datum.memoryLimit) : Writable w := by
  have hlimit : Datum.memoryLimit < 10 ^ 11 := by decide
  exact writable_of_lt (by omega)

theorem encodeInteger_of_neg {v : ℤ} (hv : v < 0) (width : Option ℤ) :
    encodeInteger v width = .error (.refuse (.negativeInteger (.int v))) := if_pos hv

theorem encodeInteger_none (n : ℕ) : encodeInteger n none = .ok (ofNat n) := if_neg (by omega)

/-- A number that does not fit is refused. -/
theorem encodeInteger_width_of_le {n w : ℕ} (hw : (w : ℤ) < Datum.memoryLimit) (hn : 256 ^ w ≤ n) :
    encodeInteger n (some w) = .error (.refuse (.doesNotFit (bitLength n) (.int w))) := by
  have hlt : ¬ byteLength n ≤ w := fun h => hn.not_gt (byteLength_le_iff.1 h)
  rw [encodeInteger, if_neg (by omega)]
  simp only [encodeAt, Int.toNat_natCast]
  rw [if_neg (by omega), if_neg (by omega), if_neg (by omega)]

/-- **Without a width an integer is written as the byte string without a leading zero that spells
it.** -/
theorem encodeInteger_eq_ok_iff {v : ℤ} {b : Bytes} :
    encodeInteger v none = .ok b ↔ (toNat b : ℤ) = v ∧ b.head? ≠ some 0 := by
  rcases lt_or_ge v 0 with hv | hv
  · rw [encodeInteger_of_neg hv]
    exact iff_of_false (fun h => nomatch h) fun h => by omega
  · obtain ⟨n, rfl⟩ := Int.eq_ofNat_of_zero_le hv
    rw [encodeInteger_none, Except.ok.injEq, eq_comm, eq_ofNat_iff, Nat.cast_inj]

/-- **At a width an integer is written as the byte string of that length that spells it.** -/
theorem encodeInteger_width_eq_ok_iff {v : ℤ} {w : ℕ} {b : Bytes}
    (hw : (w : ℤ) < Datum.memoryLimit) :
    encodeInteger v (some w) = .ok b ↔ b.length = w ∧ (toNat b : ℤ) = v := by
  rcases lt_or_ge v 0 with hv | hv
  · rw [encodeInteger_of_neg hv]
    exact iff_of_false (fun h => nomatch h) fun h => by omega
  obtain ⟨n, rfl⟩ := Int.eq_ofNat_of_zero_le hv
  rcases lt_or_ge n (256 ^ w) with hn | hn
  · rw [encodeInteger_width hw hn, Except.ok.injEq, eq_comm, eq_ofNatWidth_iff hn, Nat.cast_inj]
  · rw [encodeInteger_width_of_le hw hn]
    refine iff_of_false (fun h => nomatch h) ?_
    rintro ⟨rfl, hvalue⟩
    have hlt := toNat_lt b
    rw [Nat.cast_inj] at hvalue
    omega

/-- **The integers that fit in a width.** -/
theorem exists_encodeInteger_width_iff {v : ℤ} {w : ℕ} (hw : (w : ℤ) < Datum.memoryLimit) :
    (∃ b, encodeInteger v (some w) = .ok b) ↔ 0 ≤ v ∧ v < 256 ^ w := by
  simp only [encodeInteger_width_eq_ok_iff hw]
  constructor
  · rintro ⟨b, rfl, rfl⟩
    exact ⟨by omega, by exact_mod_cast toNat_lt b⟩
  · rintro ⟨hv, hlt⟩
    obtain ⟨n, rfl⟩ := Int.eq_ofNat_of_zero_le hv
    exact ⟨ofNatWidth w n, length_ofNatWidth w n,
      by rw [toNat_ofNatWidth_of_lt (by exact_mod_cast hlt)]⟩

/-- **An integer that does not fit is refused**, with its bits counted if it is not negative. -/
theorem encodeInteger_width_refused {v : ℤ} {w : ℕ} (hw : (w : ℤ) < Datum.memoryLimit)
    (hv : Writable v) (h : ¬ (0 ≤ v ∧ v < 256 ^ w)) :
    encodeInteger v (some w) = .error (.refused
      (if v < 0 then .negativeInteger (.int v) else .doesNotFit (bitLength v.toNat) (.int w))) := by
  split_ifs with hneg
  · rw [encodeInteger_of_neg hneg, Failure.refuse_eq_reported]
    exact congrArg _ (Failure.reported_of_lt (List.forall_mem_singleton.2 hv))
  · obtain ⟨n, rfl⟩ := Int.eq_ofNat_of_zero_le (not_lt.1 hneg)
    have hn : 256 ^ w ≤ n := by
      by_contra hlt
      exact h ⟨not_lt.1 hneg, by exact_mod_cast not_le.1 hlt⟩
    rw [encodeInteger_width_of_le hw hn, Failure.refuse_eq_reported, Int.toNat_natCast]
    refine congrArg _ (Failure.reported_of_lt (List.forall_mem_cons.2 ⟨?_, ?_⟩))
    · exact writable_bitLength hv
    · exact List.forall_mem_singleton.2 (writable_of_lt_memoryLimit hw)

/-- Among values of any type, an integer is written as it is on its own. -/
theorem Datum.encode_int (v : ℤ) (width : Option ℤ) :
    (int v).encode (width.elim null int) = encodeInteger v width := by
  rcases lt_or_ge v 0 with hv | hv
  · rw [encode.eq_def, isLess_int, decide_eq_true hv, encodeInteger_of_neg hv]
    rfl
  · rw [encode.eq_def, isLess_int, decide_eq_false hv.not_gt]
    rcases width with _ | w
    · rfl
    · rw [encodeInteger.eq_def, if_neg hv.not_gt]
      rfl

/-! ### Scalars -/

namespace Curve

variable (c : Curve)

/-- A scalar is written as the byte string of the width of the order that spells it. -/
theorem encodeScalar_eq_ok_iff {k : ℤ} {b : Bytes} :
    c.encodeScalar k = .ok b ↔ b.length = c.scalarWidth ∧ (toNat b : ℤ) = k :=
  encodeInteger_width_eq_ok_iff c.scalarWidth_lt

/-- **A value is read as a scalar exactly when it is the byte string that the scalar is written
as.** -/
theorem decodeScalar_eq_ok_iff {d : Datum} {n : ℕ} :
    c.decodeScalar d = .ok n ↔ ∃ b, d.bytes? = some b ∧ c.encodeScalar n = .ok b := by
  simp only [encodeScalar_eq_ok_iff, Nat.cast_inj]
  rcases c.decodeScalar_cases d with ⟨b, hd, hlength, hread⟩ | ⟨hlength, r, hread⟩
  · rw [hread, Except.ok.injEq]
    constructor
    · rintro rfl
      exact ⟨b, hd, hlength, rfl⟩
    · rintro ⟨b', hd', -, hvalue⟩
      rw [Option.some.inj (hd.symm.trans hd'), hvalue]
  · rw [hread]
    exact iff_of_false (fun h => nomatch h) fun ⟨b, hd, h, _⟩ => hlength b hd h

theorem exists_decodeScalar_iff {d : Datum} :
    (∃ n, c.decodeScalar d = .ok n) ↔ ∃ b, d.bytes? = some b ∧ b.length = c.scalarWidth := by
  simp only [decodeScalar_eq_ok_iff, encodeScalar_eq_ok_iff, Nat.cast_inj]
  constructor
  · rintro ⟨n, b, hd, hlength, -⟩
    exact ⟨b, hd, hlength⟩
  · rintro ⟨b, hd, hlength⟩
    exact ⟨toNat b, b, hd, hlength, rfl⟩

end Curve

/-! ### Both directions together -/

/-- **Integers and byte strings stand for each other.**  Without a width a natural number is written
as the shortest byte string that spells it, which does not begin with a zero and is empty for zero
alone, and no two integers are written alike.  At a width that the memory can hold, just the numbers
below that power of 256 are written, each as the byte string of that length that spells it, and
every other integer of at most `digitLimit` digits is refused.  A byte string that is read and
written back at its length is unchanged, and without a width it loses the zeros in front.  Scalars
are written and read so at the width of the order. -/
theorem integers_as_bytes :
    (∀ n : ℕ, encodeInteger n none = .ok (ofNat n) ∧ toNat (ofNat n) = n ∧
      (ofNat n).head? ≠ some 0 ∧ (ofNat n = [] ↔ n = 0) ∧
      ∀ b, toNat b = n → (ofNat n).length ≤ b.length) ∧
    (∀ (v v' : ℤ) (b : Bytes),
      encodeInteger v none = .ok b → encodeInteger v' none = .ok b → v = v') ∧
    (∀ (v : ℤ) (w : ℕ), (w : ℤ) < Datum.memoryLimit →
      ((∃ b, encodeInteger v (some w) = .ok b) ↔ 0 ≤ v ∧ v < 256 ^ w) ∧
      (∀ b, encodeInteger v (some w) = .ok b ↔ b.length = w ∧ (toNat b : ℤ) = v) ∧
      (Writable v → ¬ (0 ≤ v ∧ v < 256 ^ w) → encodeInteger v (some w) = .error (.refused
        (if v < 0 then .negativeInteger (.int v)
          else .doesNotFit (bitLength v.toNat) (.int w))))) ∧
    (∀ b : Bytes, encodeInteger (toNat b) none = .ok (b.dropWhile (· == 0)) ∧
      ((b.length : ℤ) < Datum.memoryLimit →
        encodeInteger (toNat b) (some b.length) = .ok b)) ∧
    (∀ (v : ℤ) (width : Option ℤ),
      (Datum.int v).encode (width.elim .null .int) = encodeInteger v width) ∧
    ∀ c : Curve,
      (∀ k : ℤ, ((∃ b, c.encodeScalar k = .ok b) ↔ 0 ≤ k ∧ k < 256 ^ c.scalarWidth) ∧
        (∀ b, c.encodeScalar k = .ok b ↔ b.length = c.scalarWidth ∧ (toNat b : ℤ) = k) ∧
        (Writable k → ¬ (0 ≤ k ∧ k < 256 ^ c.scalarWidth) →
          ∃ r, c.encodeScalar k = .error (.refused r))) ∧
      ∀ d : Datum,
        (∀ n : ℕ, c.decodeScalar d = .ok n ↔
          ∃ b, d.bytes? = some b ∧ c.encodeScalar n = .ok b) ∧
        ((∃ n, c.decodeScalar d = .ok n) ↔
          ∃ b, d.bytes? = some b ∧ b.length = c.scalarWidth) := by
  refine ⟨fun n => ⟨encodeInteger_none n, toNat_ofNat n, head?_ofNat_ne n, ofNat_eq_nil_iff,
      fun b => length_ofNat_le⟩, fun v v' b hv hv' => ?_, fun v w hw => ⟨?_, fun b => ?_, ?_⟩,
    fun b => ⟨?_, fun hb => ?_⟩, Datum.encode_int, fun c => ⟨fun k => ⟨?_, fun b => ?_, ?_⟩,
      fun d => ⟨fun n => c.decodeScalar_eq_ok_iff, c.exists_decodeScalar_iff⟩⟩⟩
  · exact (encodeInteger_eq_ok_iff.1 hv).1.symm.trans (encodeInteger_eq_ok_iff.1 hv').1
  · exact exists_encodeInteger_width_iff hw
  · exact encodeInteger_width_eq_ok_iff hw
  · exact encodeInteger_width_refused hw
  · rw [encodeInteger_none, ofNat_toNat]
  · exact (encodeInteger_width_eq_ok_iff hb).2 ⟨rfl, rfl⟩
  · exact exists_encodeInteger_width_iff c.scalarWidth_lt
  · exact c.encodeScalar_eq_ok_iff
  · exact fun hk h => ⟨_, encodeInteger_width_refused c.scalarWidth_lt hk h⟩

theorem integers_as_bytes_small :
    encodeInteger 255 (some 1) = .ok [255] ∧
    encodeInteger 256 (some 1) = .error (.refused (.doesNotFit 9 (.int 1))) ∧
    encodeInteger (-1) (some 1) = .error (.refused (.negativeInteger (.int (-1)))) ∧
    encodeInteger (toNat [0, 0, 7]) (some 3) = .ok [0, 0, 7] ∧
    encodeInteger (toNat [0, 0, 7]) none = .ok [7] ∧
    ∃ r, Curve.secp256k1.encodeScalar (-1) = .error (.refused r) := by
  obtain ⟨-, -, hwidth, hback, -, hscalar⟩ := integers_as_bytes
  refine ⟨?_, ?_, ?_, (hback [0, 0, 7]).2 (by decide), (hback [0, 0, 7]).1, ?_⟩
  · exact ((hwidth 255 1 (by decide)).2.1 [255]).2 (by decide)
  · exact (hwidth 256 1 (by decide)).2.2 (writable_of_lt (by decide)) (by decide)
  · exact (hwidth (-1) 1 (by decide)).2.2 (writable_of_lt (by decide)) (by decide)
  · exact ((hscalar .secp256k1).1 (-1)).2.2 (writable_of_lt (by decide)) (by omega)

end CurveLock

import CurveLock.Proofs.Bytes
import CurveLock.Proofs.Cipher.Keys

/-!
# Keys as they are stored

A key is stored as a byte string of the width of the order, and one that is read back is stored as
just this byte string (`Curve.storedKey_eq_ok_iff`).  The byte strings that store a key are those of
this width whose value lies in `[1, n - 1]` (`Curve.exists_storedKey_iff`); everything else is
refused (`Curve.storedKey_cases`).
-/

namespace CurveLock

namespace Curve

variable (c : Curve)

/-- The key that a value stores. -/
def storedKey (d : Datum) : Except Failure (Key c) := do c.key (← c.decodeScalar d)

/-- The byte strings that store a key: at the width of the order a number in `[1, n - 1]`. -/
def SpellsKey (b : Bytes) : Prop :=
  b.length = c.scalarWidth ∧ 1 ≤ b.toNat ∧ b.toNat ≤ c.order - 1

/-! ### Writing -/

theorem scalarWidth_lt : (c.scalarWidth : ℤ) < Datum.memoryLimit := by
  cases c <;> decide +kernel

theorem key_lt_pow (x : Key c) : x.val < 256 ^ c.scalarWidth :=
  x.lt_order.trans (lt_pow_byteLength c.order)

theorem encodeScalar_key (x : Key c) :
    c.encodeScalar x.val = .ok (Bytes.ofNatWidth c.scalarWidth x.val) :=
  encodeInteger_width c.scalarWidth_lt (c.key_lt_pow x)

/-- A key is written as the byte string of its width and its value. -/
theorem eq_ofNatWidth_iff {x : Key c} {b : Bytes} :
    b = Bytes.ofNatWidth c.scalarWidth x.val ↔ b.length = c.scalarWidth ∧ b.toNat = x.val :=
  Bytes.eq_ofNatWidth_iff (c.key_lt_pow x)

theorem ofNatWidth_key_injective :
    Function.Injective fun x : Key c => Bytes.ofNatWidth c.scalarWidth x.val := by
  rintro ⟨m, hm, hm'⟩ ⟨n, hn, hn'⟩ h
  obtain ⟨-, hvalue⟩ := c.eq_ofNatWidth_iff.1 h
  rw [Bytes.toNat_ofNatWidth_of_lt (c.key_lt_pow ⟨m, hm, hm'⟩)] at hvalue
  subst hvalue
  rfl

theorem exists_key_iff {b : Bytes} :
    (∃ x : Key c, b = Bytes.ofNatWidth c.scalarWidth x.val) ↔ c.SpellsKey b := by
  simp only [eq_ofNatWidth_iff]
  constructor
  · rintro ⟨x, hlength, hvalue⟩
    have hpos := x.pos
    have hlt := x.lt_order
    exact ⟨hlength, by omega, by omega⟩
  · rintro ⟨hlength, hpos, hle⟩
    exact ⟨⟨b.toNat, by omega, by omega⟩, hlength, rfl⟩

/-! ### Reading -/

/-- An integer that is no key is refused. -/
theorem key_cases (k : ℤ) :
    (∃ x : Key c, k = x.val) ∨ c.key k = .error (.refused .keyOutOfRange) := by
  rcases h : c.key k with f | x
  · right
    rw [key] at h
    split_ifs at h
    obtain rfl := Except.error.inj h
    rfl
  · exact Or.inl ⟨x, c.key_eq_ok_iff.1 h⟩

theorem decodeScalar_cases (d : Datum) :
    (∃ b, d.bytes? = some b ∧ b.length = c.scalarWidth ∧ c.decodeScalar d = .ok b.toNat) ∨
      (∀ b, d.bytes? = some b → b.length ≠ c.scalarWidth) ∧
        ∃ r, c.decodeScalar d = .error (.refused r) := by
  rcases hd : d.bytes? with _ | b
  · refine Or.inr ⟨fun _ h => (nomatch h), .notBytes .scalar d, ?_⟩
    rw [decodeScalar, hd]
    rfl
  · rw [decodeScalar, hd]
    by_cases hlength : b.length = c.scalarWidth
    · exact Or.inl ⟨b, rfl, hlength, if_pos hlength⟩
    · refine Or.inr ⟨?_, .scalarLength c.scalarWidth b.length, if_neg hlength⟩
      rintro b' hb'
      obtain rfl := Option.some.inj hb'
      exact hlength

/-- **A value stores a key exactly when it is the byte string that is written for it.** -/
theorem storedKey_eq_ok_iff {d : Datum} {x : Key c} :
    c.storedKey d = .ok x ↔ d.bytes? = some (Bytes.ofNatWidth c.scalarWidth x.val) := by
  rcases c.decodeScalar_cases d with ⟨b, hd, hlength, hread⟩ | ⟨hlength, r, hread⟩
  · rw [storedKey, hread, hd, Option.some.injEq, eq_ofNatWidth_iff]
    exact (c.key_eq_ok_iff.trans Nat.cast_inj).trans (and_iff_right hlength).symm
  · rw [storedKey, hread]
    refine iff_of_false (fun h => nomatch h) fun h => ?_
    exact hlength _ h (Bytes.length_ofNatWidth ..)

/-- Reading a key fails in no other way than by refusing what it is given. -/
theorem storedKey_cases (d : Datum) :
    (∃ x, c.storedKey d = .ok x) ∨ ∃ r, c.storedKey d = .error (.refused r) := by
  rcases c.decodeScalar_cases d with ⟨b, -, -, hread⟩ | ⟨-, r, hread⟩
  · rcases c.key_cases b.toNat with ⟨x, hx⟩ | hrefused
    · exact Or.inl ⟨x, by rw [storedKey, hread]; exact c.key_eq_ok_iff.2 hx⟩
    · exact Or.inr ⟨_, by rw [storedKey, hread]; exact hrefused⟩
  · exact Or.inr ⟨r, by rw [storedKey, hread]; rfl⟩

/-- **The byte strings that store a key.** -/
theorem exists_storedKey_iff {d : Datum} :
    (∃ x, c.storedKey d = .ok x) ↔ ∃ b, d.bytes? = some b ∧ c.SpellsKey b := by
  simp only [storedKey_eq_ok_iff, ← exists_key_iff]
  constructor
  · rintro ⟨x, hx⟩
    exact ⟨_, hx, x, rfl⟩
  · rintro ⟨_, hd, x, rfl⟩
    exact ⟨x, hd⟩

end Curve

end CurveLock

import CurveLock.Proofs.Cipher.Keys
import CurveLock.Proofs.Curve.HashToPoint

/-!
# What one step of a cipher does to a point

Each operation of a cipher multiplies a point of the group and writes the result: encrypting and
encrypting again by the key, decrypting by its inverse.  The point is not zero and neither is the
factor, so the product is not zero either and can be written.
-/

namespace CurveLock

namespace Cipher

variable {c : Curve}

theorem run_scale {A : c.equation.Group} (hA : A ≠ 0) {k : ℕ} (hk : (k : ZMod c.order) ≠ 0) :
    ∃ b, c.encodePoint (c.equation.coordinates ((k : ZMod c.order) • A)) = .ok b ∧
      ∀ s, (scale c (c.equation.coordinates A) k).run s =
        .ok b { s with opCount := s.opCount + 1 } := by
  obtain ⟨b, hb⟩ := c.exists_encodePoint_coordinates (smul_ne_zero hk hA)
  refine ⟨b, hb, fun s => ?_⟩
  have hmul := c.smul_coordinates k A
  rw [Int.cast_natCast] at hmul
  rw [scale, EStateM.run_bind, Curve.run_mul]
  simp only [hmul, hb]
  rfl

/-- One key keeps points apart. -/
theorem eq_of_encodePoint_smul (cipher : Cipher c) {A B : c.equation.Group} {b : Bytes}
    (hA : c.encodePoint (c.equation.coordinates ((cipher.key.val : ZMod c.order) • A)) = .ok b)
    (hB : c.encodePoint (c.equation.coordinates ((cipher.key.val : ZMod c.order) • B)) = .ok b) :
    A = B := by
  have hpoint := c.encodePoint_injective (c.equation.contains_coordinates _)
    (c.equation.contains_coordinates _) hA hB
  exact smul_right_injective _ (cast_key_ne_zero cipher.key)
    (c.equation.coordinates_injective hpoint)

/-- **Encrypting puts the key on the hashed plaintext.** -/
theorem exists_run_encrypt (cipher : Cipher c) {m : Datum} {A : c.equation.Group} (hA : A ≠ 0)
    (h : c.Hashes m (c.equation.coordinates A)) :
    ∃ b, c.encodePoint (c.equation.coordinates ((cipher.key.val : ZMod c.order) • A)) = .ok b ∧
      ∀ s, ∃ s', (cipher.encrypt m).run s = .ok b s' := by
  obtain ⟨message, hm, hhash⟩ := Curve.hashes_iff.1 h
  obtain ⟨b, hb, hrun⟩ := run_scale hA (cast_key_ne_zero cipher.key)
  refine ⟨b, hb, fun s => ?_⟩
  obtain ⟨s₂, hs₂⟩ := (c.exists_run_hashToPoint_iff message _ s).2 hhash
  rw [encrypt, hm, EStateM.run_bind, Metered.run_lift_ok]
  simp only [EStateM.run_bind, hs₂, hrun]
  exact ⟨_, rfl⟩

/-- **Encrypting again multiplies by the second key.** -/
theorem exists_run_reEncrypt (cipher : Cipher c) {A : c.equation.Group} (hA : A ≠ 0) {d : Datum}
    (hd : c.decodePoint d = .ok (c.equation.coordinates A)) :
    ∃ b, c.encodePoint (c.equation.coordinates ((cipher.key.val : ZMod c.order) • A)) = .ok b ∧
      ∀ s, ∃ s', (cipher.reEncrypt d).run s = .ok b s' := by
  obtain ⟨b, hb, hrun⟩ := run_scale hA (cast_key_ne_zero cipher.key)
  refine ⟨b, hb, fun s => ?_⟩
  rw [reEncrypt, hd, EStateM.run_bind, Metered.run_lift_ok]
  exact ⟨_, hrun s⟩

/-- **Decrypting multiplies by the inverse of the key.** -/
theorem Made.exists_run_decrypt {cipher : Cipher c} (made : cipher.Made) {A : c.equation.Group}
    (hA : A ≠ 0) {d : Datum} (hd : c.decodePoint d = .ok (c.equation.coordinates A)) :
    ∃ b, c.encodePoint (c.equation.coordinates ((cipher.key.val : ZMod c.order)⁻¹ • A)) = .ok b ∧
      ∀ s, ∃ s', (cipher.decrypt d).run s = .ok b s' := by
  have hk : (cipher.inverse : ZMod c.order) ≠ 0 := by
    rw [made.cast_inverse]
    exact inv_ne_zero (cast_key_ne_zero cipher.key)
  obtain ⟨b, hb, hrun⟩ := run_scale hA hk
  rw [made.cast_inverse] at hb
  refine ⟨b, hb, fun s => ?_⟩
  rw [decrypt, hd, EStateM.run_bind, Metered.run_lift_ok]
  exact ⟨_, hrun s⟩

end Cipher

end CurveLock

import CurveLock.Proofs.Cipher.Steps
import CurveLock.Proofs.Curve.Pairs
import CurveLock.Proofs.Curve.Subtraction
import CurveLock.Proofs.ElGamal.Keys

/-!
# What one ElGamal operation does to the points

With the random scalar `r` a message `M` becomes `(r · G, M + r · Y)`, and infinity `(r · G, r · Y)`
(`ElGamal.result_encrypt`, `ElGamal.result_encryptIdentity`).  A ciphertext `(C₁, C₂)` becomes `C₂ -
x · C₁` if this is finite, in every arithmetic that leaves the difference
(`ElGamal.result_decryptIn`).  Decryption in weighted coordinates does the same, unless the parts
are misread (`ElGamal.result_decrypt_eq_decryptIn`).  A cipher multiplies both parts by its key
(`Cipher.exists_run_reEncryptPair`).
-/

namespace CurveLock

namespace ElGamal

variable {c : Curve}

/-! ### Writing a ciphertext -/

theorem encodePair_eq_ok_iff {P Q : Point} {p q : Bytes} :
    encodePair c P Q = .ok (p, q) ↔ c.encodePoint P = .ok p ∧ c.encodePoint Q = .ok q := by
  simp only [encodePair, Metered.except_bind_eq_ok_iff]
  constructor
  · rintro ⟨p', hp, q', hq, h⟩
    cases h
    exact ⟨hp, hq⟩
  · rintro ⟨hp, hq⟩
    exact ⟨p, hp, q, hq, rfl⟩

theorem exists_encodePair {A B : c.equation.Group} (hA : A ≠ 0) (hB : B ≠ 0) :
    ∃ p q, encodePair c (c.equation.coordinates A) (c.equation.coordinates B) = .ok (p, q) := by
  obtain ⟨p, hp⟩ := c.exists_encodePoint_coordinates hA
  obtain ⟨q, hq⟩ := c.exists_encodePoint_coordinates hB
  exact ⟨p, q, encodePair_eq_ok_iff.2 ⟨hp, hq⟩⟩

theorem encodePair_zero {A : c.equation.Group} (hA : A ≠ 0) :
    encodePair c (c.equation.coordinates A) (c.equation.coordinates 0) =
      .error (.broken .infinityHasNoEncoding) := by
  obtain ⟨p, hp⟩ := c.exists_encodePoint_coordinates hA
  rw [encodePair, hp]
  rfl

/-! ### Encrypting -/

theorem smul_key (r : Key c) (A : c.equation.Group) : c.smul r.val (c.equation.coordinates A) =
    c.equation.coordinates ((r.val : ZMod c.order) • A) := by
  rw [c.smul_coordinates, Int.cast_natCast]

theorem add_mask {keys : ElGamal c} {Y : c.equation.Group}
    (hY : keys.publicKey = c.equation.coordinates Y) (M : c.equation.Group) (r : Key c) :
    c.add (c.equation.coordinates M) (c.smul r.val keys.publicKey) =
      c.equation.coordinates (M + (r.val : ZMod c.order) • Y) := by
  rw [hY, smul_key, Curve.add, c.equation.add_coordinates]

/-- **A message is masked by the multiple of the public key.** -/
theorem result_encrypt {keys : ElGamal c} {Y M : c.equation.Group}
    (hY : keys.publicKey = c.equation.coordinates Y) {m : Datum}
    (hm : c.decodePoint m = .ok (c.equation.coordinates M)) {r : Key c} {s : Scratch}
    (hr : s.Supplies r) :
    (keys.encrypt m).result s =
      encodePair c (c.equation.coordinates ((r.val : ZMod c.order) • c.basePoint))
        (c.equation.coordinates (M + (r.val : ZMod c.order) • Y)) := by
  obtain ⟨s₁, hs₁⟩ := c.exists_run_randomScalar hr
  rw [encrypt, hm, Metered.result_bind (Metered.run_lift_ok _ s), Metered.result_bind hs₁,
    Metered.result_bind (c.run_mul ..), Metered.result_bind (c.run_mul ..),
    Metered.result_bind (c.run_sum ..), Metered.result_lift, add_mask hY, smul_generator_key]

/-- **Encrypting a message fails only where the masked message is infinity**, as an internal
error. -/
theorem Made.result_encrypt_cases {keys : ElGamal c} (made : keys.Made) {m : Datum} {P : Point}
    (hm : c.decodePoint m = .ok P) {r : Key c} {s : Scratch} (hr : s.Supplies r) :
    (c.add P (c.smul r.val keys.publicKey) = .infinity ∧
      (keys.encrypt m).result s = .error (.broken .infinityHasNoEncoding)) ∨
    (c.add P (c.smul r.val keys.publicKey) ≠ .infinity ∧
      ∃ p q, (keys.encrypt m).result s = .ok (p, q) ∧
        c.encodePoint (c.smul r.val c.generator) = .ok p ∧
        c.encodePoint (c.add P (c.smul r.val keys.publicKey)) = .ok q) := by
  obtain ⟨Y, -, hY⟩ := made.exists_publicKey
  obtain ⟨M, -, rfl, -⟩ := c.exists_of_decodePoint hm
  rw [result_encrypt hY hm hr, add_mask hY, smul_generator_key,
    c.equation.coordinates_eq_infinity_iff, Ne, c.equation.coordinates_eq_infinity_iff]
  by_cases h : M + (r.val : ZMod c.order) • Y = 0
  · left
    rw [h, encodePair_zero (smul_basePoint_ne_zero r)]
    exact ⟨rfl, rfl⟩
  · obtain ⟨p, q, hpq⟩ := exists_encodePair (smul_basePoint_ne_zero r) h
    exact Or.inr ⟨h, p, q, hpq, encodePair_eq_ok_iff.1 hpq⟩

/-- **Infinity is masked in the same way.** -/
theorem result_encryptIdentity {keys : ElGamal c} {Y : c.equation.Group}
    (hY : keys.publicKey = c.equation.coordinates Y) {r : Key c} {s : Scratch}
    (hr : s.Supplies r) :
    keys.encryptIdentity.result s =
      encodePair c (c.equation.coordinates ((r.val : ZMod c.order) • c.basePoint))
        (c.equation.coordinates ((r.val : ZMod c.order) • Y)) := by
  obtain ⟨s₁, hs₁⟩ := c.exists_run_randomScalar hr
  rw [encryptIdentity, Metered.result_bind hs₁, Metered.result_bind (c.run_mul ..),
    Metered.result_bind (c.run_mul ..), Metered.result_lift, hY, smul_key, smul_generator_key]

/-- What is no point of the curve is refused before anything is drawn. -/
theorem result_encrypt_of_refused (keys : ElGamal c) {m : Datum} {r : Rejection}
    (h : c.decodePoint m = .error (.refused r)) (s : Scratch) :
    (keys.encrypt m).result s = .error (.refused r) := by
  rw [encrypt, h, Metered.result_bind_error (Metered.run_lift_error _ s)]

/-! ### Decrypting -/

theorem smul_key_of_val_eq_one {x : Key c} (hx : x.val = 1) (A : c.equation.Group) :
    (x.val : ZMod c.order) • A = A := by
  rw [hx, Nat.cast_one, one_smul]

theorem run_unmask (ops : c.Arithmetic) (x : Key c) (C₁ C₂ : Point) (s : Scratch) :
    (unmask ops x C₁ C₂).run s =
      .ok (ops.difference x C₁ C₂) { s with opCount := s.opCount + 2 } := rfl

section

variable {ops : c.Arithmetic} {keys : ElGamal c} {x : Key c} {d : Datum}

/-- **What is left is written**, unless it is infinity. -/
theorem result_decryptIn_of_decodePair (hx : keys.privateKey = some x) {C₁ C₂ : Point}
    (hd : c.decodePair d = .ok (C₁, C₂)) (s : Scratch) :
    (keys.decryptIn ops d).result s =
      if ops.difference x C₁ C₂ = .infinity then .error (.refused .decryptsToInfinity)
      else c.encodePoint (ops.difference x C₁ C₂) := by
  rw [decryptIn, hx]
  simp only [hd]
  rw [Metered.result_bind (Metered.run_lift_ok _ s), Metered.result_bind (run_unmask ..)]
  split_ifs
  · rfl
  · exact Metered.result_lift _ _

/-- What is no pair of points is refused. -/
theorem result_decryptIn_of_refused (hx : keys.privateKey = some x) {r : Rejection}
    (h : c.decodePair d = .error (.refused r)) (s : Scratch) :
    (keys.decryptIn ops d).result s = .error (.refused r) := by
  rw [decryptIn, hx]
  simp only [h]
  rw [Metered.result_bind_error (Metered.run_lift_error _ s)]

/-- Without the private key nothing is decrypted. -/
theorem result_decryptIn_of_public (hx : keys.privateKey = none) (s : Scratch) :
    (keys.decryptIn ops d).result s = .error (.refused .cannotDecrypt) := by
  rw [decryptIn, hx]
  rfl

variable {A B : c.equation.Group}
  (hd : c.decodePair d = .ok (c.equation.coordinates A, c.equation.coordinates B))

include hd

/-- **The mask is taken off** wherever the difference is left. -/
theorem result_decryptIn (hx : keys.privateKey = some x)
    (hsub : ops.difference x (c.equation.coordinates A) (c.equation.coordinates B) =
      c.equation.coordinates (B - (x.val : ZMod c.order) • A))
    (hne : B ≠ (x.val : ZMod c.order) • A) (s : Scratch) :
    (keys.decryptIn ops d).result s =
      c.encodePoint (c.equation.coordinates (B - (x.val : ZMod c.order) • A)) := by
  have hfinite : c.equation.coordinates (B - (x.val : ZMod c.order) • A) ≠ .infinity :=
    mt c.equation.coordinates_eq_infinity_iff.1 (sub_ne_zero.2 hne)
  rw [result_decryptIn_of_decodePair hx hd, hsub, if_neg hfinite]

/-- **Nothing is left of the multiple of the first part.** -/
theorem result_decryptIn_infinity (hops : ops.IsGroup) (hx : keys.privateKey = some x)
    (heq : B = (x.val : ZMod c.order) • A) (s : Scratch) :
    (keys.decryptIn ops d).result s = .error (.refused .decryptsToInfinity) := by
  rw [result_decryptIn_of_decodePair hx hd, hops.difference_coordinates, heq, sub_self,
    c.equation.coordinates_zero, if_pos rfl]

/-- In weighted coordinates the mask is taken off as well, unless the parts are misread. -/
theorem result_decrypt (hx : keys.privateKey = some x) (hB : B ≠ 0)
    (hne : B ≠ (x.val : ZMod c.order) • A)
    (hread : ¬ Curve.Misread x (c.equation.coordinates A) (c.equation.coordinates B))
    (s : Scratch) :
    (keys.decrypt d).result s =
      c.encodePoint (c.equation.coordinates (B - (x.val : ZMod c.order) • A)) :=
  result_decryptIn hd hx (Curve.weighted_difference_coordinates hB hread) hne s

/-- Parts that are misread are taken for a ciphertext of infinity. -/
theorem result_decrypt_infinity (hx : keys.privateKey = some x) (hB : B ≠ 0)
    (h : B = (x.val : ZMod c.order) • A ∨
      Curve.Misread x (c.equation.coordinates A) (c.equation.coordinates B)) (s : Scratch) :
    (keys.decrypt d).result s = .error (.refused .decryptsToInfinity) := by
  have hinfinity : c.weighted.difference x (c.equation.coordinates A) (c.equation.coordinates B) =
      .infinity := by
    by_cases hread : Curve.Misread x (c.equation.coordinates A) (c.equation.coordinates B)
    · exact Curve.weighted_difference_of_misread hB hread
    · rw [Curve.weighted_difference_coordinates hB hread, h.resolve_right hread, sub_self,
        c.equation.coordinates_zero]
  rw [decrypt, result_decryptIn_of_decodePair hx hd, if_pos hinfinity]

end

/-- **Decryption in weighted coordinates is decryption on the group**, for every value that is not
misread. -/
theorem result_decrypt_eq_decryptIn {ops : c.Arithmetic} (hops : ops.IsGroup) (keys : ElGamal c)
    (d : Datum) (s : Scratch)
    (hread : ∀ x C₁ C₂, keys.privateKey = some x → c.decodePair d = .ok (C₁, C₂) →
      ¬ Curve.Misread x C₁ C₂) :
    (keys.decrypt d).result s = (keys.decryptIn ops d).result s := by
  rw [decrypt]
  rcases hx : keys.privateKey with _ | x
  · rw [result_decryptIn_of_public hx, result_decryptIn_of_public hx]
  · rcases c.decodePair_cases d with ⟨C₁, C₂, hd⟩ | ⟨r, hr⟩
    · obtain ⟨A, B, -, hB, rfl, rfl, -⟩ := c.exists_of_decodePair hd
      rw [result_decryptIn_of_decodePair hx hd, result_decryptIn_of_decodePair hx hd,
        Curve.weighted_difference_coordinates hB (hread _ _ _ hx hd), hops.difference_coordinates]
    · rw [result_decryptIn_of_refused hx hr, result_decryptIn_of_refused hx hr]

/-- It is enough that the mask has another weight than one. -/
theorem result_decrypt_eq_of_weight_ne_one {ops : c.Arithmetic} (hops : ops.IsGroup)
    {keys : ElGamal c} {x : Key c} (hx : keys.privateKey = some x) {d : Datum} {C₁ C₂ : Point}
    (hd : c.decodePair d = .ok (C₁, C₂)) (hweight : (c.equation.smulWeighted x.val C₁).z ≠ 1)
    (s : Scratch) : (keys.decrypt d).result s = (keys.decryptIn ops d).result s := by
  refine result_decrypt_eq_decryptIn hops keys d s fun x' C₁' C₂' hx' hd' hread => ?_
  cases hx.symm.trans hx'
  cases hd.symm.trans hd'
  exact hweight hread.1

end ElGamal

/-! ### Encrypting again -/

namespace Cipher

variable {c : Curve}

/-- **Encrypting a ciphertext again multiplies both parts by the key.** -/
theorem exists_run_reEncryptPair (cipher : Cipher c) {A B : c.equation.Group} (hA : A ≠ 0)
    (hB : B ≠ 0) {d : Datum}
    (hd : c.decodePair d = .ok (c.equation.coordinates A, c.equation.coordinates B)) :
    ∃ p q, c.encodePoint (c.equation.coordinates ((cipher.key.val : ZMod c.order) • A)) = .ok p ∧
      c.encodePoint (c.equation.coordinates ((cipher.key.val : ZMod c.order) • B)) = .ok q ∧
      ∀ s, ∃ s', (cipher.reEncryptPair d).run s = .ok (p, q) s' := by
  obtain ⟨p, hp, hrun⟩ := run_scale hA (cast_key_ne_zero cipher.key)
  obtain ⟨q, hq, hrun'⟩ := run_scale hB (cast_key_ne_zero cipher.key)
  refine ⟨p, q, hp, hq, fun s => ?_⟩
  rw [reEncryptPair, hd, EStateM.run_bind, Metered.run_lift_ok]
  simp only [EStateM.run_bind, hrun, hrun']
  exact ⟨_, rfl⟩

end Cipher

end CurveLock

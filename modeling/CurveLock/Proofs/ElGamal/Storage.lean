import CurveLock.Proofs.Acceptance
import CurveLock.Proofs.Curve.StoredKey
import CurveLock.Proofs.Steady

/-!
# Stored ElGamal key pairs

Two values are taken for a key pair exactly when the one spells a point, the other a key, and the
point is that multiple of the base point (`ElGamal.guarded_ofPair`).  So each part of an accepted
pair determines the other (`ElGamal.exists_result_ofPair_iff`), and the pair that is stored for a
user makes the same user again (`ElGamal.pair_storage`).
-/

namespace CurveLock

namespace ElGamal

variable {c : Curve}

/-! ### Reading a pair -/

/-- A stored pair is read as a point and a key, and then they are compared. -/
theorem ofPair_eq (p k : Datum) : ofPair c p k = do
    let Y ← c.decodePoint p
    let x ← c.storedKey k
    if (← c.mul c.generator x.val) ≠ Y then Metered.refuse .publicKeyMismatch
    return ⟨Y, some x⟩ := by
  rw [ofPair, Curve.storedKey]
  rcases c.decodePoint p with f | Y
  · rfl
  · rcases c.decodeScalar k with f | n <;> rfl

theorem result_ofPair {p k : Datum} {Y : Point} {x : Key c} (hp : c.decodePoint p = .ok Y)
    (hk : c.storedKey k = .ok x) (s : Scratch) :
    (ofPair c p k).result s =
      if c.smul x.val c.generator ≠ Y then .error (.refused .publicKeyMismatch)
      else .ok ⟨Y, some x⟩ := by
  rw [ofPair_eq, hp, hk, Metered.result_bind (Metered.run_lift_ok Y s),
    Metered.result_bind (Metered.run_lift_ok x s), Metered.result_bind (c.run_mul ..)]
  split_ifs <;> rfl

theorem result_ofPair_of_eq {p k : Datum} {x : Key c}
    (hp : c.decodePoint p = .ok (c.smul x.val c.generator)) (hk : c.storedKey k = .ok x)
    (s : Scratch) : (ofPair c p k).result s = .ok ⟨c.smul x.val c.generator, some x⟩ := by
  rw [result_ofPair hp hk, if_neg (not_not.2 rfl)]

/-- **A pair is accepted when the point is the multiple of the base point by the key**, and is
refused otherwise. -/
theorem result_ofPair_cases (p k : Datum) :
    (∃ x : Key c, c.decodePoint p = .ok (c.smul x.val c.generator) ∧ c.storedKey k = .ok x) ∨
      (¬ ∃ x : Key c, c.decodePoint p = .ok (c.smul x.val c.generator) ∧ c.storedKey k = .ok x) ∧
        ∀ s, ∃ r, (ofPair c p k).result s = .error (.refused r) := by
  rcases c.decodePoint_cases p with ⟨-, Y, -, -, -, hp⟩ | ⟨r, hp⟩
  · rcases c.storedKey_cases k with ⟨x, hk⟩ | ⟨r, hk⟩
    · by_cases hY : c.smul x.val c.generator = Y
      · exact Or.inl ⟨x, by rw [hp, hY], hk⟩
      · refine Or.inr ⟨?_, fun s => ⟨_, by rw [result_ofPair hp hk, if_pos hY]⟩⟩
        rintro ⟨x', hp', hk'⟩
        cases hk.symm.trans hk'
        exact hY (Except.ok.inj (hp'.symm.trans hp))
    · refine Or.inr ⟨?_, fun s => ⟨r, ?_⟩⟩
      · rintro ⟨x, -, hk'⟩
        cases hk.symm.trans hk'
      · rw [ofPair_eq, hp, hk, Metered.result_bind (Metered.run_lift_ok Y s),
          Metered.result_bind_error (Metered.run_lift_error _ s)]
  · refine Or.inr ⟨?_, fun s => ⟨r, ?_⟩⟩
    · rintro ⟨x, hp', -⟩
      cases hp.symm.trans hp'
    · rw [ofPair_eq, hp, Metered.result_bind_error (Metered.run_lift_error _ s)]

theorem exists_pair_iff {p k : Datum} :
    (∃ x : Key c, c.decodePoint p = .ok (c.smul x.val c.generator) ∧ c.storedKey k = .ok x) ↔
      ∃ Y b, c.decodePoint p = .ok Y ∧ k.bytes? = some b ∧ c.SpellsKey b ∧
        Y = c.smul b.toNat c.generator := by
  constructor
  · rintro ⟨x, hp, hk⟩
    have hvalue := ((c.eq_ofNatWidth_iff (x := x)).1 rfl).2
    exact ⟨_, _, hp, c.storedKey_eq_ok_iff.1 hk, c.exists_key_iff.1 ⟨x, rfl⟩, by rw [hvalue]⟩
  · rintro ⟨_, b, hp, hk, hb, rfl⟩
    obtain ⟨x, rfl⟩ := c.exists_key_iff.2 hb
    rw [(c.eq_ofNatWidth_iff.1 rfl).2] at hp
    exact ⟨x, hp, c.storedKey_eq_ok_iff.2 hk⟩

theorem privateBytes_eq {keys : ElGamal c} {x : Key c} (hx : keys.privateKey = some x) :
    keys.privateBytes = .ok (Bytes.ofNatWidth c.scalarWidth x.val) := by
  rw [privateBytes, hx]
  exact c.encodeScalar_key x

/-- **A pair is accepted exactly when its parts belong together**, and is stored as it was. -/
theorem guarded_ofPair (p k : Datum) (s : Scratch) :
    Guarded ((ofPair c p k).result s)
      (∃ Y b, c.decodePoint p = .ok Y ∧ k.bytes? = some b ∧ c.SpellsKey b ∧
        Y = c.smul b.toNat c.generator)
      fun keys => (∃ b, p.bytes? = some b ∧ keys.publicBytes = .ok b) ∧
        ∃ b, k.bytes? = some b ∧ keys.privateBytes = .ok b := by
  rw [← exists_pair_iff]
  rcases result_ofPair_cases p k with ⟨x, hp, hk⟩ | ⟨hnot, hrefused⟩
  · obtain ⟨-, -, -, b, hb, hencode⟩ := c.exists_of_decodePoint hp
    exact Or.inl ⟨⟨x, hp, hk⟩, _, result_ofPair_of_eq hp hk s, ⟨b, hb, hencode⟩, _,
      c.storedKey_eq_ok_iff.1 hk, privateBytes_eq rfl⟩
  · exact Or.inr ⟨hnot, hrefused s⟩

/-! ### Each part determines the other -/

/-- The byte strings of an accepted pair are those of a key and of its multiple of the base
point. -/
theorem exists_result_ofPair_iff {p k : Bytes} {s : Scratch} :
    (∃ keys, (ofPair c (.bytes p) (.bytes k)).result s = .ok keys) ↔
      ∃ x : Key c, c.encodePoint (c.smul x.val c.generator) = .ok p ∧
        k = Bytes.ofNatWidth c.scalarWidth x.val := by
  have hpoint : ∀ x : Key c, c.decodePoint (.bytes p) = .ok (c.smul x.val c.generator) ↔
      c.encodePoint (c.smul x.val c.generator) = .ok p := by
    intro x
    rw [c.decodePoint_eq rfl, c.pointOfBytes_eq_ok_iff, smul_generator_key]
    exact and_iff_right (c.equation.contains_coordinates _)
  have hkey : ∀ x : Key c, c.storedKey (.bytes k) = .ok x ↔
      k = Bytes.ofNatWidth c.scalarWidth x.val :=
    fun x => c.storedKey_eq_ok_iff.trans Option.some_inj
  simp only [← hpoint, ← hkey]
  constructor
  · rintro ⟨keys, hkeys⟩
    rcases result_ofPair_cases (.bytes p) (.bytes k) with h | ⟨-, hrefused⟩
    · exact h
    · obtain ⟨r, hr⟩ := hrefused s
      cases hr.symm.trans hkeys
  · rintro ⟨x, hp, hk⟩
    exact ⟨_, result_ofPair_of_eq hp hk s⟩

/-- **A stored key goes with one public key.** -/
theorem existsUnique_public {k : Bytes} (hk : c.SpellsKey k) (s : Scratch) :
    ∃! p : Bytes, ∃ keys, (ofPair c (.bytes p) (.bytes k)).result s = .ok keys := by
  obtain ⟨x, rfl⟩ := c.exists_key_iff.2 hk
  obtain ⟨p, hp⟩ := c.exists_encodePoint_coordinates (smul_basePoint_ne_zero x)
  rw [← smul_generator_key] at hp
  simp only [exists_result_ofPair_iff]
  refine ⟨p, ⟨x, hp, rfl⟩, ?_⟩
  rintro p' ⟨x', hp', hk'⟩
  obtain rfl := c.ofNatWidth_key_injective hk'
  exact Except.ok.inj (hp'.symm.trans hp)

/-- **A public key goes with one stored key.** -/
theorem existsUnique_private {p : Bytes} (hp : c.SpellsPoint p) (s : Scratch) :
    ∃! k : Bytes, ∃ keys, (ofPair c (.bytes p) (.bytes k)).result s = .ok keys := by
  obtain ⟨P, hP⟩ := c.exists_pointOfBytes_iff.2 hp
  obtain ⟨A, hA, rfl, b, hb, hencode⟩ :=
    c.exists_of_decodePoint ((c.decodePoint_eq (d := .bytes p) rfl).trans hP)
  obtain rfl := Option.some.inj hb
  obtain ⟨x, hx, hunique⟩ := c.existsUnique_key hA
  simp only [exists_result_ofPair_iff, smul_generator_key, c.encodePoint_coordinates_iff hencode]
  refine ⟨_, ⟨x, hx, rfl⟩, ?_⟩
  rintro k ⟨x', hx', rfl⟩
  rw [hunique x' hx']

/-! ### The law -/

/-- **The user who is made from the stored pair is the user.** -/
theorem result_ofPair_of_stored {keys : ElGamal c} (made : keys.Made) {x : Key c}
    (hx : keys.privateKey = some x) {p k : Bytes} (hp : keys.publicBytes = .ok p)
    (hk : keys.privateBytes = .ok k) {d d' : Datum} (hd : d.bytes? = some p)
    (hd' : d'.bytes? = some k) (s : Scratch) : (ofPair c d d').result s = .ok keys := by
  have hpublic := made.publicKey_eq hx
  rw [privateBytes_eq hx] at hk
  obtain rfl := Except.ok.inj hk
  rw [publicBytes, hpublic, smul_generator_key] at hp
  have hpoint : c.decodePoint d = .ok (c.smul x.val c.generator) := by
    rw [c.decodePoint_eq hd, smul_generator_key]
    exact c.pointOfBytes_eq_ok_iff.2 ⟨c.equation.contains_coordinates _, hp⟩
  rw [result_ofPair_of_eq hpoint (c.storedKey_eq_ok_iff.2 hd'), ← hpublic, ← hx]

/-- **Key pairs are accepted exactly, and a stored pair is the whole user.**  Two values are
accepted as a key pair when the point that the first spells is the multiple of the base point by the
key that the second stores, and refused otherwise.  A new pair is made from whatever is drawn.
Every user with a private key, however the keys were made, has that multiple as the public key, and
what is made from the two stored parts decrypts every ciphertext as the user does.  Each stored key
goes with one public key, and each point with one stored key. -/
theorem pair_storage (c : Curve) :
    (∀ (p k : Datum) (s : Scratch),
      Guarded ((ofPair c p k).result s)
        (∃ Y b, c.decodePoint p = .ok Y ∧ k.bytes? = some b ∧ c.SpellsKey b ∧
          Y = c.smul b.toNat c.generator)
        fun keys => (∃ b, p.bytes? = some b ∧ keys.publicBytes = .ok b) ∧
          ∃ b, k.bytes? = some b ∧ keys.privateBytes = .ok b) ∧
    (∀ s : Scratch, s.supply ≠ [] →
      ∃ keys x, (create c).result s = .ok keys ∧ keys.privateKey = some x) ∧
    (∀ (keys : ElGamal c) (x : Key c), keys.Made → keys.privateKey = some x →
      keys.publicKey = c.smul x.val c.generator ∧ keys.publicKey ≠ .infinity ∧
      ∃ p k, keys.publicBytes = .ok p ∧ keys.privateBytes = .ok k ∧
        ∀ d d' : Datum, d.bytes? = some p → d'.bytes? = some k → ∀ s,
          ∃ restored, (ofPair c d d').result s = .ok restored ∧
            ∀ (ciphertext : Datum) (s s' : Scratch),
              (restored.decrypt ciphertext).result s = (keys.decrypt ciphertext).result s') ∧
    (∀ k : Bytes, c.SpellsKey k → ∀ s,
      ∃! p : Bytes, ∃ keys, (ofPair c (.bytes p) (.bytes k)).result s = .ok keys) ∧
    ∀ p : Bytes, c.SpellsPoint p → ∀ s,
      ∃! k : Bytes, ∃ keys, (ofPair c (.bytes p) (.bytes k)).result s = .ok keys := by
  refine ⟨guarded_ofPair, fun s hs => ?_, fun keys x made hx => ?_,
    fun _ hk => existsUnique_public hk, fun _ hp => existsUnique_private hp⟩
  · obtain ⟨x, hsupplies⟩ := c.exists_supplies hs
    obtain ⟨s', hs'⟩ := exists_run_create hsupplies
    exact ⟨_, x, Metered.result_eq_ok hs', rfl⟩
  · obtain ⟨Y, hY, hpublic⟩ := made.exists_publicKey
    obtain ⟨p, hp⟩ := c.exists_encodePoint_coordinates hY
    have hbytes : keys.publicBytes = .ok p := by rw [publicBytes, hpublic, hp]
    refine ⟨made.publicKey_eq hx, ?_, p, _, hbytes, privateBytes_eq hx, fun d d' hd hd' s => ?_⟩
    · rw [hpublic]
      exact mt c.equation.coordinates_eq_infinity_iff.1 hY
    · exact ⟨keys, result_ofPair_of_stored made hx hbytes (privateBytes_eq hx) hd hd' s,
        fun ciphertext => keys.steady_decrypt ciphertext⟩

theorem pair_storage_two :
    ∃ (keys restored created : ElGamal .secp192r1) (p k m : Bytes) (pq : Bytes × Bytes), keys.Made ∧
      keys.publicKey = Curve.secp192r1.smul 2 Curve.secp192r1.generator ∧
      keys.publicBytes = .ok p ∧ keys.privateBytes = .ok k ∧
      (ofPair .secp192r1 (.bytes p) (.byteArray k)).result {} = .ok restored ∧
      (keys.encrypt (.bytes m)).result { supply := [0] } = .ok pq ∧
      (restored.decrypt (.ofPair pq)).result {} = .ok m ∧
      (create .secp192r1).result { supply := [-1] } = .ok created ∧
      (∃! p' : Bytes, ∃ keys, (ofPair .secp192r1 (.bytes p') (.bytes k)).result {} = .ok keys) ∧
      ∃! k' : Bytes, ∃ keys, (ofPair .secp192r1 (.bytes p) (.bytes k')).result {} = .ok keys := by
  obtain ⟨keys, made, hx⟩ :=
    exists_made (c := .secp192r1) ⟨2, by decide, by decide +kernel⟩
  obtain ⟨-, hcreate, hmade, hpublic, hprivate⟩ := pair_storage .secp192r1
  obtain ⟨hkey, -, p, k, hp, hk, hrestore⟩ := hmade keys _ made hx
  obtain ⟨restored, hrestored, hsame⟩ := hrestore (.bytes p) (.byteArray k) rfl rfl {}
  obtain ⟨created, -, hcreated, -⟩ := hcreate { supply := [-1] } (List.cons_ne_nil _ _)
  have hspellsKey : Curve.secp192r1.SpellsKey k := by
    rw [privateBytes_eq hx] at hk
    exact Curve.secp192r1.exists_key_iff.1 ⟨_, (Except.ok.inj hk).symm⟩
  have hspellsPoint : Curve.secp192r1.SpellsPoint p := by
    obtain ⟨Y, -, hY⟩ := made.exists_publicKey
    rw [publicBytes, hY] at hp
    exact Curve.secp192r1.exists_pointOfBytes_iff.1
      ⟨_, Curve.secp192r1.pointOfBytes_eq_ok_iff.2 ⟨Weierstrass.contains_coordinates _ Y, hp⟩⟩
  obtain ⟨g, m, hg, hm, hencrypt⟩ := exists_encrypt_basePoint made hx (by decide)
    (Curve.secp192r1.supplies_one (r := Curve.secp192r1.keyOne) rfl)
  have hread : ¬ Curve.Misread (c := .secp192r1) ⟨2, by decide, by decide +kernel⟩
      Curve.secp192r1.generator Curve.secp192r1.generator := by decide +kernel
  rw [← Curve.coordinates_basePoint] at hread
  have hdecrypt : (keys.decrypt (.ofPair (g, g))).result {} = .ok m := by
    rw [result_decrypt (Curve.secp192r1.decodePair_of_holds (Datum.holds_ofPair (g, g)) hg hg) hx
      Curve.secp192r1.basePoint_ne_zero (basePoint_ne_smul (by decide)) hread, hm]
  exact ⟨keys, restored, created, p, k, m, (g, g), made, hkey, hp, hk, hrestored, hencrypt,
    (hsame _ _ _).trans hdecrypt, hcreated, hpublic k hspellsKey {}, hprivate p hspellsPoint {}⟩

end ElGamal

end CurveLock

import CurveLock.Proofs.ElGamal.Steps

/-!
# Encrypting and decrypting undo each other

The base point generates the group, so the first part of a ciphertext determines the random scalar,
and the second part then determines the message (`ElGamal.encrypts_iff`,
`ElGamal.encryptsIdentity_iff`). Every pair of finite points is therefore the ciphertext of one
message or of infinity, with one scalar.

* `ElGamal.Encrypts`, `ElGamal.EncryptsIdentity`: what is encrypted to a pair of byte strings;
* `ElGamal.encrypting_decrypting`: the law, in every arithmetic that is that of the group.

In weighted coordinates decryption follows the law too, for all pairs that are not misread
(`ElGamal.result_decrypt_eq_decryptIn`).
-/

namespace CurveLock

namespace ElGamal

variable {c : Curve}

/-! ### What is encrypted to a pair -/

/-- Encrypting the message with the random scalar `r` yields the pair. -/
def Encrypts (keys : ElGamal c) (m : Datum) (r : Key c) (pq : Bytes × Bytes) : Prop :=
  ∃ s : Scratch, s.Supplies r ∧ (keys.encrypt m).result s = .ok pq

/-- Encrypting infinity with the random scalar `r` yields the pair. -/
def EncryptsIdentity (keys : ElGamal c) (r : Key c) (pq : Bytes × Bytes) : Prop :=
  ∃ s : Scratch, s.Supplies r ∧ keys.encryptIdentity.result s = .ok pq

section

variable {keys : ElGamal c} {x : Key c} {A B : c.equation.Group} {p q : Bytes}

/-- The multiple of the public key by the random scalar is the mask that the private key yields. -/
theorem smul_publicKey (r x : Key c) :
    (r.val : ZMod c.order) • (x.val : ZMod c.order) • c.basePoint =
      (x.val : ZMod c.order) • (r.val : ZMod c.order) • c.basePoint :=
  smul_comm _ _ _

theorem result_encrypt_of_difference (hY : keys.publicKey = c.smul x.val c.generator)
    (hp : c.encodePoint (c.equation.coordinates A) = .ok p)
    (hq : c.encodePoint (c.equation.coordinates B) = .ok q) {m : Datum} {r : Key c}
    (hm : c.decodePoint m = .ok (c.equation.coordinates (B - (x.val : ZMod c.order) • A)))
    (hA : (r.val : ZMod c.order) • c.basePoint = A) {s : Scratch} (hr : s.Supplies r) :
    (keys.encrypt m).result s = .ok (p, q) := by
  subst hA
  rw [smul_generator_key] at hY
  rw [result_encrypt hY hm hr, encodePair_eq_ok_iff, smul_publicKey, sub_add_cancel]
  exact ⟨hp, hq⟩

theorem basePoint_ne_smul (hx : x.val ≠ 1) :
    c.basePoint ≠ (x.val : ZMod c.order) • c.basePoint := by
  intro heq
  have hone : (c.keyOne.val : ZMod c.order) • c.basePoint = c.basePoint :=
    smul_key_of_val_eq_one rfl _
  have hkey := (c.existsUnique_key c.basePoint_ne_zero).unique heq.symm hone
  exact hx (congrArg Key.val hkey)

/-- With any key but one there is a message both parts of whose ciphertext are the base point. -/
theorem exists_encrypt_basePoint (made : keys.Made) (hx : keys.privateKey = some x)
    (hx1 : x.val ≠ 1) {s : Scratch} (hr : s.Supplies c.keyOne) :
    ∃ g m, c.encodePoint (c.equation.coordinates c.basePoint) = .ok g ∧
      c.encodePoint (c.equation.coordinates
        (c.basePoint - (x.val : ZMod c.order) • c.basePoint)) = .ok m ∧
      (keys.encrypt (.bytes m)).result s = .ok (g, g) := by
  obtain ⟨g, hg⟩ := c.exists_encodePoint_coordinates c.basePoint_ne_zero
  obtain ⟨m, hm⟩ := c.exists_encodePoint_coordinates (sub_ne_zero.2 (basePoint_ne_smul hx1))
  exact ⟨g, m, hg, hm, result_encrypt_of_difference (made.publicKey_eq hx) hg hg
    (c.decodePoint_of_encodePoint hm) (smul_key_of_val_eq_one rfl _) hr⟩

/-- **A pair is a ciphertext of the difference of its points, with the scalar of its first
part.** -/
theorem encrypts_iff (hY : keys.publicKey = c.smul x.val c.generator)
    (hp : c.encodePoint (c.equation.coordinates A) = .ok p)
    (hq : c.encodePoint (c.equation.coordinates B) = .ok q) {m : Datum} {r : Key c} :
    keys.Encrypts m r (p, q) ↔
      c.decodePoint m = .ok (c.equation.coordinates (B - (x.val : ZMod c.order) • A)) ∧
        (r.val : ZMod c.order) • c.basePoint = A := by
  constructor
  · rintro ⟨s, hr, h⟩
    rcases c.decodePoint_cases m with ⟨-, P, -, hP, -, hm⟩ | ⟨f, hf⟩
    · obtain ⟨M, rfl⟩ := c.equation.contains_iff.1 hP
      rw [smul_generator_key] at hY
      rw [result_encrypt hY hm hr, encodePair_eq_ok_iff, c.encodePoint_coordinates_iff hp,
        c.encodePoint_coordinates_iff hq, smul_publicKey] at h
      obtain ⟨rfl, rfl⟩ := h
      exact ⟨by rw [hm, add_sub_cancel_right], rfl⟩
    · rw [result_encrypt_of_refused keys hf] at h
      cases h
  · rintro ⟨hm, hA⟩
    obtain ⟨s, hr⟩ := c.exists_scratch_supplies r
    exact ⟨s, hr, result_encrypt_of_difference hY hp hq hm hA hr⟩

theorem result_encryptIdentity_of_mask (hY : keys.publicKey = c.smul x.val c.generator)
    (hp : c.encodePoint (c.equation.coordinates A) = .ok p)
    (hq : c.encodePoint (c.equation.coordinates ((x.val : ZMod c.order) • A)) = .ok q) {r : Key c}
    (hA : (r.val : ZMod c.order) • c.basePoint = A) {s : Scratch} (hr : s.Supplies r) :
    keys.encryptIdentity.result s = .ok (p, q) := by
  subst hA
  rw [smul_generator_key] at hY
  rw [result_encryptIdentity hY hr, encodePair_eq_ok_iff, smul_publicKey]
  exact ⟨hp, hq⟩

/-- **A pair is a ciphertext of infinity if its second part is the mask.** -/
theorem encryptsIdentity_iff (hY : keys.publicKey = c.smul x.val c.generator)
    (hp : c.encodePoint (c.equation.coordinates A) = .ok p)
    (hq : c.encodePoint (c.equation.coordinates B) = .ok q) {r : Key c} :
    keys.EncryptsIdentity r (p, q) ↔
      B = (x.val : ZMod c.order) • A ∧ (r.val : ZMod c.order) • c.basePoint = A := by
  constructor
  · rintro ⟨s, hr, h⟩
    rw [smul_generator_key] at hY
    rw [result_encryptIdentity hY hr, encodePair_eq_ok_iff, c.encodePoint_coordinates_iff hp,
      c.encodePoint_coordinates_iff hq, smul_publicKey] at h
    obtain ⟨rfl, rfl⟩ := h
    exact ⟨rfl, rfl⟩
  · rintro ⟨rfl, hA⟩
    obtain ⟨s, hr⟩ := c.exists_scratch_supplies r
    exact ⟨s, hr, result_encryptIdentity_of_mask hY hp hq hA hr⟩

end

/-! ### Every pair has one origin -/

/-- The pair is a ciphertext of the message `b`, with one random scalar, and of nothing else. -/
def OnlyMessage (keys : ElGamal c) (b : Bytes) (pq : Bytes × Bytes) : Prop :=
  (∃ r : Key c, (∀ s : Scratch, s.Supplies r → (keys.encrypt (.bytes b)).result s = .ok pq) ∧
    ∀ (m : Datum) (r' : Key c), keys.Encrypts m r' pq → m.bytes? = some b ∧ r' = r) ∧
  ∀ r : Key c, ¬ keys.EncryptsIdentity r pq

/-- The pair is a ciphertext of infinity, with one random scalar, and of no message. -/
def OnlyIdentity (keys : ElGamal c) (pq : Bytes × Bytes) : Prop :=
  (∃ r : Key c, (∀ s : Scratch, s.Supplies r → keys.encryptIdentity.result s = .ok pq) ∧
    ∀ r' : Key c, keys.EncryptsIdentity r' pq → r' = r) ∧
  ∀ (m : Datum) (r : Key c), ¬ keys.Encrypts m r pq

section

variable {keys : ElGamal c} {x : Key c} {A B : c.equation.Group}

theorem exists_onlyMessage (hY : keys.publicKey = c.smul x.val c.generator) {p q : Bytes}
    (hA : A ≠ 0) (hne : B ≠ (x.val : ZMod c.order) • A)
    (hp : c.encodePoint (c.equation.coordinates A) = .ok p)
    (hq : c.encodePoint (c.equation.coordinates B) = .ok q) :
    ∃ b, c.encodePoint (c.equation.coordinates (B - (x.val : ZMod c.order) • A)) = .ok b ∧
      keys.OnlyMessage b (p, q) := by
  obtain ⟨b, hb⟩ := c.exists_encodePoint_coordinates (sub_ne_zero.2 hne)
  obtain ⟨r, hr, hunique⟩ := c.existsUnique_key hA
  refine ⟨b, hb, ⟨r, fun s hs => ?_, fun m r' h => ?_⟩, fun r' h => ?_⟩
  · exact result_encrypt_of_difference hY hp hq (c.decodePoint_of_encodePoint hb) hr hs
  · obtain ⟨hm, hr'⟩ := (encrypts_iff hY hp hq).1 h
    obtain ⟨-, -, -, b', hbytes, hb'⟩ := c.exists_of_decodePoint hm
    cases hb.symm.trans hb'
    exact ⟨hbytes, hunique r' hr'⟩
  · exact hne ((encryptsIdentity_iff hY hp hq).1 h).1

theorem onlyIdentity (hY : keys.publicKey = c.smul x.val c.generator) {p q : Bytes}
    (hA : A ≠ 0) (hp : c.encodePoint (c.equation.coordinates A) = .ok p)
    (hq : c.encodePoint (c.equation.coordinates ((x.val : ZMod c.order) • A)) = .ok q) :
    keys.OnlyIdentity (p, q) := by
  obtain ⟨r, hr, hunique⟩ := c.existsUnique_key hA
  refine ⟨⟨r, fun s hs => ?_, fun r' h => ?_⟩, fun m r' h => ?_⟩
  · exact result_encryptIdentity_of_mask hY hp hq hr hs
  · exact hunique r' ((encryptsIdentity_iff hY hp hq).1 h).2
  · obtain ⟨hm, -⟩ := (encrypts_iff hY hp hq).1 h
    -- the message would be infinity, which is never read
    obtain ⟨M, hM, hcoordinates, -⟩ := c.exists_of_decodePoint hm
    rw [sub_self] at hcoordinates
    exact hM (c.equation.coordinates_injective hcoordinates).symm

end

/-! ### Every message has its ciphertexts -/

section

variable {keys : ElGamal c} {x : Key c} {m : Datum} {P : Point} {r : Key c} {s : Scratch}

theorem Made.add_mask_eq_infinity_iff (made : keys.Made) (hm : c.decodePoint m = .ok P) :
    c.add P (c.smul r.val keys.publicKey) = .infinity ↔
      P = c.neg (c.smul r.val keys.publicKey) := by
  obtain ⟨Y, -, hY⟩ := made.exists_publicKey
  obtain ⟨M, -, rfl, -⟩ := c.exists_of_decodePoint hm
  refine c.add_eq_infinity_iff (c.equation.contains_coordinates M) ?_
  rw [hY, smul_key]
  exact c.equation.contains_coordinates _

/-- Only the message that is the opposite of the mask cannot be encrypted. -/
theorem Made.result_encrypt_eq_broken_iff (made : keys.Made) (hm : c.decodePoint m = .ok P)
    (hr : s.Supplies r) :
    (keys.encrypt m).result s = .error (.broken .infinityHasNoEncoding) ↔
      P = c.neg (c.smul r.val keys.publicKey) := by
  rw [← made.add_mask_eq_infinity_iff hm]
  rcases made.result_encrypt_cases hm hr with ⟨hinfinity, herror⟩ | ⟨hfinite, p, q, hok, -⟩
  · exact iff_of_true herror hinfinity
  · refine iff_of_false (fun h => ?_) hfinite
    rw [hok] at h
    cases h

/-- **Decrypting the ciphertext of a message yields the message.** -/
theorem Made.decrypt_encrypt {ops : c.Arithmetic} (hops : ops.IsGroup) (made : keys.Made)
    (hx : keys.privateKey = some x) (hm : c.decodePoint m = .ok P) (hr : s.Supplies r)
    (hne : P ≠ c.neg (c.smul r.val keys.publicKey)) :
    ∃ pq b, (keys.encrypt m).result s = .ok pq ∧ m.bytes? = some b ∧
      ∀ (d : Datum) (s' : Scratch), d.Holds pq → (keys.decryptIn ops d).result s' = .ok b := by
  rcases made.result_encrypt_cases hm hr with ⟨hinfinity, -⟩ | ⟨hfinite, p, q, hok, hp, hq⟩
  · exact absurd ((made.add_mask_eq_infinity_iff hm).1 hinfinity) hne
  · have hYG := (made.publicKey_eq hx).trans (smul_generator_key x)
    obtain ⟨M, hM, rfl, b, hbytes, hb⟩ := c.exists_of_decodePoint hm
    rw [add_mask hYG] at hq
    rw [smul_generator_key] at hp
    refine ⟨(p, q), b, hok, hbytes, fun d s' hd => ?_⟩
    have hne' : M + (r.val : ZMod c.order) • (x.val : ZMod c.order) • c.basePoint ≠
        (x.val : ZMod c.order) • (r.val : ZMod c.order) • c.basePoint := by
      rw [smul_publicKey, Ne, add_eq_right]
      exact hM
    rw [result_decryptIn (c.decodePair_of_holds hd hp hq) hx (hops.difference_coordinates ..) hne',
      smul_publicKey, add_sub_cancel_right, hb]

end

/-! ### The law -/

/-- **Encrypting and decrypting undo each other, over all ciphertexts**, in an arithmetic that is
that of the group.

Encrypting a message with a random scalar fails only where the message is the opposite of the mask,
as an internal error; otherwise decrypting the pair yields the message. Whoever has the public key
alone gets the same pair. Encrypting infinity never fails.

Every pair of finite points is a ciphertext of one message, the one that decrypting yields, or else
of infinity, which decrypting then refuses; in either case with one random scalar. -/
theorem encrypting_decrypting {ops : c.Arithmetic} (hops : ops.IsGroup) {keys : ElGamal c}
    (made : keys.Made) {x : Key c} (hx : keys.privateKey = some x) :
    (∀ (m : Datum) (P : Point), c.decodePoint m = .ok P →
      ∀ (r : Key c) (s : Scratch), s.Supplies r →
        ((keys.encrypt m).result s = .error (.broken .infinityHasNoEncoding) ↔
          P = c.neg (c.smul r.val keys.publicKey)) ∧
        (P ≠ c.neg (c.smul r.val keys.publicKey) →
          ∃ pq b, (keys.encrypt m).result s = .ok pq ∧ m.bytes? = some b ∧
            ∀ (d : Datum) (s' : Scratch), d.Holds pq →
              (keys.decryptIn ops d).result s' = .ok b) ∧
        ∀ (other : ElGamal c) (s' : Scratch), other.publicKey = keys.publicKey →
          s'.Supplies r → (other.encrypt m).result s' = (keys.encrypt m).result s) ∧
    (∀ (r : Key c) (s : Scratch), s.Supplies r →
      ∃ pq, ∀ other : ElGamal c, other.publicKey = keys.publicKey →
        other.encryptIdentity.result s = .ok pq) ∧
    (∀ (p q : Bytes) (C₁ C₂ : Point), c.pointOfBytes p = .ok C₁ → c.pointOfBytes q = .ok C₂ →
      (C₂ ≠ c.smul x.val C₁ → ∃ b, keys.OnlyMessage b (p, q) ∧
        ∀ (d : Datum) (s : Scratch), d.Holds (p, q) →
          (keys.decryptIn ops d).result s = .ok b) ∧
      (C₂ = c.smul x.val C₁ → keys.OnlyIdentity (p, q) ∧
        ∀ (d : Datum) (s : Scratch), d.Holds (p, q) →
          (keys.decryptIn ops d).result s = .error (.refused .decryptsToInfinity))) := by
  have hY := made.publicKey_eq hx
  have hYG := hY.trans (smul_generator_key x)
  refine ⟨?_, ?_, ?_⟩
  · intro m P hm r s hr
    refine ⟨made.result_encrypt_eq_broken_iff hm hr, made.decrypt_encrypt hops hx hm hr,
      fun other s' h hr' => ?_⟩
    obtain ⟨M, -, rfl, -⟩ := c.exists_of_decodePoint hm
    rw [result_encrypt (h.trans hYG) hm hr', result_encrypt hYG hm hr]
  · intro r s hr
    have hA := smul_basePoint_ne_zero r
    obtain ⟨p, q, hpq⟩ := exists_encodePair hA (smul_ne_zero (Cipher.cast_key_ne_zero x) hA)
    refine ⟨(p, q), fun other h => ?_⟩
    rw [result_encryptIdentity (h.trans hYG) hr, smul_publicKey, hpq]
  · intro p q C₁ C₂ hp hq
    obtain ⟨hC₁, hp⟩ := c.pointOfBytes_eq_ok_iff.1 hp
    obtain ⟨hC₂, hq⟩ := c.pointOfBytes_eq_ok_iff.1 hq
    obtain ⟨A, rfl⟩ := c.equation.contains_iff.1 hC₁
    obtain ⟨B, rfl⟩ := c.equation.contains_iff.1 hC₂
    have hA : A ≠ 0 := by
      rintro rfl
      cases hp
    rw [smul_key, Ne, c.equation.coordinates_injective.eq_iff]
    constructor
    · intro hne
      obtain ⟨b, hb, honly⟩ := exists_onlyMessage hY hA hne hp hq
      refine ⟨b, honly, fun d s hd => ?_⟩
      rw [result_decryptIn (c.decodePair_of_holds hd hp hq) hx (hops.difference_coordinates ..) hne,
        hb]
    · rintro rfl
      exact ⟨onlyIdentity hY hA hp hq, fun d s hd =>
        result_decryptIn_infinity (c.decodePair_of_holds hd hp hq) hops hx rfl s⟩

theorem encrypting_decrypting_generator :
    ∃ (keys : ElGamal .secp192r1) (x : Key .secp192r1) (b : Bytes) (pq : Bytes × Bytes),
      keys.Made ∧ keys.privateKey = some x ∧ x.val = 2 ∧
      (keys.encrypt (.bytes b)).result { supply := [0] } = .ok pq ∧
      (keys.decryptIn Curve.secp192r1.plain (.ofPair pq)).result {} = .ok b ∧
      (keys.decrypt (.ofPair pq)).result {} = .ok b := by
  obtain ⟨keys, made, hx⟩ := exists_made (c := .secp192r1) ⟨2, by decide, by decide +kernel⟩
  have hr := Curve.secp192r1.supplies_one (r := Curve.secp192r1.keyOne) rfl
  obtain ⟨g, m, hg, hm, hencrypt⟩ := exists_encrypt_basePoint made hx (by decide) hr
  obtain ⟨hmessage, -, -⟩ := encrypting_decrypting Curve.isGroup_plain made hx
  obtain ⟨hbroken, hok, -⟩ := hmessage _ _ (Curve.secp192r1.decodePoint_of_encodePoint hm) _ _ hr
  have hne := mt hbroken.2 (by rw [hencrypt]; exact fun h => nomatch h)
  obtain ⟨pq, b, hpq, hbytes, hdecrypt⟩ := hok hne
  cases hencrypt.symm.trans hpq
  obtain rfl := Option.some.inj hbytes
  have hplain := hdecrypt _ {} (Datum.holds_ofPair (g, g))
  have hread := Curve.secp192r1.decodePair_of_holds (Datum.holds_ofPair (g, g)) hg hg
  rw [Curve.coordinates_basePoint] at hread
  refine ⟨keys, _, m, (g, g), made, hx, rfl, hencrypt, hplain, ?_⟩
  rw [result_decrypt_eq_of_weight_ne_one Curve.isGroup_plain hx hread (by decide +kernel), hplain]

end ElGamal

end CurveLock

import CurveLock.Proofs.Cipher.Layers
import CurveLock.Proofs.ElGamal.Ciphertexts

/-!
# Encrypting ElGamal ciphertexts again

A cipher multiplies both parts of a ciphertext by its key.  After any number of ciphers both parts
have been multiplied by the product `K` of the keys (`ReEncryptor.exists_applyPair`), so that a
ciphertext of `M` with the random scalar `r` has become the ciphertext of `K · M` with `K · r`,
under the same public key.  Decrypting it yields what the same ciphers make of the message itself.

* `ReEncryptor`: a cipher that encrypts again, and the scratch in which it does so;
* `ReEncryptor.re_encryption`: the law, in every arithmetic that is that of the group.
-/

namespace CurveLock

/-- The product of the keys, modulo the order. -/
def keyProduct {c : Curve} (ks : List (Key c)) : ℕ := (ks.map Key.val).prod % c.order

section

variable {c : Curve}

theorem cast_keyProduct (ks : List (Key c)) :
    (keyProduct ks : ZMod c.order) = KeyChange.product (ks.map fun k => ⟨k, .on⟩) := by
  rw [keyProduct, ZMod.natCast_mod, Nat.cast_list_prod, KeyChange.product, List.map_map,
    List.map_map]
  rfl

theorem cast_keyProduct_ne_zero (ks : List (Key c)) : (keyProduct ks : ZMod c.order) ≠ 0 := by
  rw [cast_keyProduct, KeyChange.product]
  refine List.prod_ne_zero fun h => ?_
  obtain ⟨k, -, hk⟩ := List.mem_map.1 h
  exact k.factor_ne_zero hk

theorem keyProduct_perm {ks ks' : List (Key c)} (h : ks.Perm ks') :
    keyProduct ks = keyProduct ks' := by
  rw [keyProduct, keyProduct, (h.map Key.val).prod_eq]

theorem keyProduct_singleton (k : Key c) : keyProduct [k] = k.val := by
  rw [keyProduct, List.map_singleton, List.prod_singleton, Nat.mod_eq_of_lt k.lt_order]

theorem cast_keyProduct_cons (k : Key c) (ks : List (Key c)) :
    (keyProduct (k :: ks) : ZMod c.order) = keyProduct ks * k.val := by
  rw [cast_keyProduct, cast_keyProduct, KeyChange.product, List.map_cons, List.map_cons,
    List.prod_cons, mul_comm]
  rfl

end

/-- A cipher that encrypts ciphertexts again, and the scratch in which it does so. -/
structure ReEncryptor (c : Curve) where
  cipher : Cipher c
  made : cipher.Made
  scratch : Scratch

namespace ReEncryptor

variable {c : Curve}

/-- The key of the cipher. -/
def key (e : ReEncryptor c) : Key c := e.cipher.key

/-- The same cipher as a layer on single ciphertexts. -/
def layer (e : ReEncryptor c) : Layer c := ⟨e.cipher, e.made, .on, e.scratch⟩

/-- What several ciphers make of an ElGamal ciphertext, one after the other. -/
def applyPair : List (ReEncryptor c) → Bytes × Bytes → Except Failure (Bytes × Bytes)
  | [], pq => .ok pq
  | e :: es, pq => do
    let pq' ← (e.cipher.reEncryptPair (.ofPair pq)).result e.scratch
    applyPair es pq'

theorem product_layers (es : List (ReEncryptor c)) :
    KeyChange.product ((es.map layer).map Layer.change) = keyProduct (es.map key) := by
  rw [cast_keyProduct, List.map_map, List.map_map]
  rfl

/-- **Ciphers multiply both parts by the product of their keys.** -/
theorem exists_applyPair (es : List (ReEncryptor c)) : ∀ {A B : c.equation.Group} {p q : Bytes},
    A ≠ 0 → B ≠ 0 → c.encodePoint (c.equation.coordinates A) = .ok p →
    c.encodePoint (c.equation.coordinates B) = .ok q →
    ∃ p' q', applyPair es (p, q) = .ok (p', q') ∧
      c.encodePoint (c.equation.coordinates ((keyProduct (es.map key) : ZMod c.order) • A)) =
        .ok p' ∧
      c.encodePoint (c.equation.coordinates ((keyProduct (es.map key) : ZMod c.order) • B)) =
        .ok q' := by
  induction es with
  | nil =>
    intro A B p q hA hB hp hq
    have hone : (keyProduct (([] : List (ReEncryptor c)).map key) : ZMod c.order) = 1 := by
      rw [cast_keyProduct]
      rfl
    rw [hone, one_smul, one_smul]
    exact ⟨p, q, rfl, hp, hq⟩
  | cons e es ih =>
    intro A B p q hA hB hp hq
    have hread := c.decodePair_of_holds (Datum.holds_ofPair (p, q)) hp hq
    obtain ⟨p₁, q₁, hp₁, hq₁, hrun⟩ := e.cipher.exists_run_reEncryptPair hA hB hread
    have hkey := Cipher.cast_key_ne_zero e.cipher.key
    -- the other ciphers read the pair that this one has written
    obtain ⟨p', q', happly, hp', hq'⟩ := ih (smul_ne_zero hkey hA) (smul_ne_zero hkey hB) hp₁ hq₁
    refine ⟨p', q', ?_, ?_, ?_⟩
    · rw [applyPair, Metered.result_of_forall_run hrun]
      exact happly
    · rw [List.map_cons, cast_keyProduct_cons, mul_smul]
      exact hp'
    · rw [List.map_cons, cast_keyProduct_cons, mul_smul]
      exact hq'

/-- The ciphers make the same of a point alone as of a part of a ciphertext, in any order. -/
theorem applyAll_layers {es es' : List (ReEncryptor c)} (hperm : (es'.map key).Perm (es.map key))
    {d : Datum} {A : c.equation.Group} (hA : A ≠ 0)
    (hd : c.decodePoint d = .ok (c.equation.coordinates A)) {b : Bytes}
    (hb : c.encodePoint
      (c.equation.coordinates ((keyProduct (es.map key) : ZMod c.order) • A)) = .ok b) :
    Layer.applyAll (es'.map layer) d = .ok b := by
  obtain ⟨b', happly, hb'⟩ := Layer.exists_applyAll (es'.map layer) hA hd
  rw [product_layers, keyProduct_perm hperm, hb] at hb'
  rw [happly, hb']

/-- In any order the ciphers multiply both parts by the product of their keys. -/
theorem exists_applyPair_perm (es : List (ReEncryptor c)) {A B : c.equation.Group} {p q : Bytes}
    (hA : A ≠ 0) (hB : B ≠ 0) (hp : c.encodePoint (c.equation.coordinates A) = .ok p)
    (hq : c.encodePoint (c.equation.coordinates B) = .ok q) :
    ∃ p' q', (∀ es' : List (ReEncryptor c), (es'.map key).Perm (es.map key) →
        applyPair es' (p, q) = .ok (p', q')) ∧
      c.encodePoint (c.equation.coordinates ((keyProduct (es.map key) : ZMod c.order) • A)) =
        .ok p' ∧
      c.encodePoint (c.equation.coordinates ((keyProduct (es.map key) : ZMod c.order) • B)) =
        .ok q' := by
  obtain ⟨p', q', -, hp', hq'⟩ := exists_applyPair es hA hB hp hq
  refine ⟨p', q', fun es' hperm => ?_, hp', hq'⟩
  obtain ⟨p₁, q₁, happly, hp₁, hq₁⟩ := exists_applyPair es' hA hB hp hq
  rw [keyProduct_perm hperm] at hp₁ hq₁
  cases hp'.symm.trans hp₁
  cases hq'.symm.trans hq₁
  exact happly

/-- The random scalar of the multiplied ciphertext. -/
theorem exists_key_mul (es : List (ReEncryptor c)) (r : Key c) :
    ∃ r' : Key c, r'.val = keyProduct (es.map key) * r.val % c.order ∧
      (r'.val : ZMod c.order) = keyProduct (es.map key) * r.val := by
  have hne := mul_ne_zero (cast_keyProduct_ne_zero (es.map key)) (Cipher.cast_key_ne_zero r)
  obtain ⟨r', hr'⟩ := c.exists_key_cast_eq hne
  refine ⟨r', ?_, hr'⟩
  rw [← Nat.cast_mul, ZMod.natCast_eq_natCast_iff', Nat.mod_eq_of_lt r'.lt_order] at hr'
  exact hr'

/-- Without the mask the multiplied second part is the multiplied message. -/
theorem smul_masked_sub (k : ZMod c.order) (M : c.equation.Group) (r x : Key c) :
    k • (M + (r.val : ZMod c.order) • (x.val : ZMod c.order) • c.basePoint) -
      (x.val : ZMod c.order) • k • (r.val : ZMod c.order) • c.basePoint = k • M := by
  rw [smul_comm (x.val : ZMod c.order), ← ElGamal.smul_publicKey, smul_add, add_sub_cancel_right]

/-- In any order the ciphers make one pair of a ciphertext, and one byte string of its message. -/
theorem exists_apply_perm (es : List (ReEncryptor c)) {A B M : c.equation.Group} {p q : Bytes}
    {m : Datum} (hA : A ≠ 0) (hB : B ≠ 0) (hM : M ≠ 0)
    (hp : c.encodePoint (c.equation.coordinates A) = .ok p)
    (hq : c.encodePoint (c.equation.coordinates B) = .ok q)
    (hm : c.decodePoint m = .ok (c.equation.coordinates M)) :
    ∃ p' q' b, (∀ es' : List (ReEncryptor c), (es'.map key).Perm (es.map key) →
        applyPair es' (p, q) = .ok (p', q') ∧ Layer.applyAll (es'.map layer) m = .ok b) ∧
      c.encodePoint (c.equation.coordinates ((keyProduct (es.map key) : ZMod c.order) • A)) =
        .ok p' ∧
      c.encodePoint (c.equation.coordinates ((keyProduct (es.map key) : ZMod c.order) • B)) =
        .ok q' ∧
      c.encodePoint (c.equation.coordinates ((keyProduct (es.map key) : ZMod c.order) • M)) =
        .ok b := by
  obtain ⟨p', q', happly, hp', hq'⟩ := exists_applyPair_perm es hA hB hp hq
  obtain ⟨b, hb⟩ :=
    c.exists_encodePoint_coordinates (smul_ne_zero (cast_keyProduct_ne_zero (es.map key)) hM)
  exact ⟨p', q', b, fun es' hperm => ⟨happly es' hperm, applyAll_layers hperm hM hm hb⟩, hp', hq',
    hb⟩

/-- A ciphertext of infinity stays one. -/
theorem exists_apply_identity {ops : c.Arithmetic} (hops : ops.IsGroup) {keys : ElGamal c}
    (made : keys.Made) {x : Key c} (hx : keys.privateKey = some x) (es : List (ReEncryptor c))
    {r : Key c} {s : Scratch} (hr : s.Supplies r) :
    ∃ pq out, keys.encryptIdentity.result s = .ok pq ∧
      (∀ es' : List (ReEncryptor c), (es'.map key).Perm (es.map key) →
        applyPair es' pq = .ok out) ∧
      ∀ (d : Datum) (s' : Scratch), d.Holds out →
        (keys.decryptIn ops d).result s' = .error (.refused .decryptsToInfinity) := by
  have hYG := (made.publicKey_eq hx).trans (ElGamal.smul_generator_key x)
  have hX := Cipher.cast_key_ne_zero x
  have hA := ElGamal.smul_basePoint_ne_zero r
  obtain ⟨p, q, hpq⟩ := ElGamal.exists_encodePair hA (smul_ne_zero hX hA)
  obtain ⟨hp, hq⟩ := ElGamal.encodePair_eq_ok_iff.1 hpq
  obtain ⟨p', q', happly, hp', hq'⟩ := exists_applyPair_perm es hA (smul_ne_zero hX hA) hp hq
  rw [smul_comm] at hq'
  refine ⟨(p, q), (p', q'), ?_, happly, fun d s' hd => ?_⟩
  · rw [ElGamal.result_encryptIdentity hYG hr, ElGamal.smul_publicKey, hpq]
  · exact ElGamal.result_decryptIn_infinity (c.decodePair_of_holds hd hp' hq') hops hx rfl s'

/-- **Encrypting again is homomorphic**, in an arithmetic that is that of the group. Take any
ciphers, with the product `K` of their keys, and a ciphertext of the message `P` with the random
scalar `r`. The ciphers, in any order, all return. They make of it the ciphertext of `K · P` with `K
· r`, and decrypting that yields what the ciphers, in any order, make of the message. A ciphertext
of infinity stays one. -/
theorem re_encryption {ops : c.Arithmetic} (hops : ops.IsGroup) {keys : ElGamal c}
    (made : keys.Made) {x : Key c} (hx : keys.privateKey = some x) (es : List (ReEncryptor c))
    {r : Key c} {s : Scratch} (hr : s.Supplies r) :
    (∀ (m : Datum) (P : Point) (pq : Bytes × Bytes), c.decodePoint m = .ok P →
      (keys.encrypt m).result s = .ok pq →
      ∃ (out : Bytes × Bytes) (b : Bytes) (r' : Key c),
        (∀ es' : List (ReEncryptor c), (es'.map key).Perm (es.map key) →
          applyPair es' pq = .ok out ∧ Layer.applyAll (es'.map layer) m = .ok b) ∧
        c.encodePoint (c.smul (keyProduct (es.map key)) P) = .ok b ∧
        r'.val = keyProduct (es.map key) * r.val % c.order ∧
        (∀ s' : Scratch, s'.Supplies r' → (keys.encrypt (.bytes b)).result s' = .ok out) ∧
        ∀ (d : Datum) (s' : Scratch), d.Holds out → (keys.decryptIn ops d).result s' = .ok b) ∧
    ∃ pq out, keys.encryptIdentity.result s = .ok pq ∧
      (∀ es' : List (ReEncryptor c), (es'.map key).Perm (es.map key) →
        applyPair es' pq = .ok out) ∧
      ∀ (d : Datum) (s' : Scratch), d.Holds out →
        (keys.decryptIn ops d).result s' = .error (.refused .decryptsToInfinity) := by
  refine ⟨fun m P pq hm hencrypt => ?_, exists_apply_identity hops made hx es hr⟩
  rcases made.result_encrypt_cases hm hr with ⟨-, herror⟩ | ⟨hfinite, p, q, hok, hp, hq⟩
  · rw [herror] at hencrypt
    cases hencrypt
  cases hok.symm.trans hencrypt
  have hY := made.publicKey_eq hx
  have hA := ElGamal.smul_basePoint_ne_zero r
  have hK := cast_keyProduct_ne_zero (es.map key)
  obtain ⟨M, hM, rfl, -⟩ := c.exists_of_decodePoint hm
  rw [ElGamal.add_mask (hY.trans (ElGamal.smul_generator_key x))] at hfinite hq
  rw [ElGamal.smul_generator_key] at hp
  rw [c.smul_coordinates, Int.cast_natCast]
  have hB := mt c.equation.coordinates_eq_infinity_iff.2 hfinite
  obtain ⟨p', q', b, happly, hp', hq', hb⟩ := exists_apply_perm es hA hB hM hp hq hm
  obtain ⟨r', hval, hr'⟩ := exists_key_mul es r
  refine ⟨(p', q'), b, r', happly, hb, hval, fun s' hs' => ?_, fun d s' hd => ?_⟩
  · refine ElGamal.result_encrypt_of_difference hY hp' hq' ?_ ?_ hs'
    · rw [smul_masked_sub]
      exact c.decodePoint_of_encodePoint hb
    · rw [hr', mul_smul]
  · have hne : (keyProduct (es.map key) : ZMod c.order) •
        (M + (r.val : ZMod c.order) • (x.val : ZMod c.order) • c.basePoint) ≠
        (x.val : ZMod c.order) • (keyProduct (es.map key) : ZMod c.order) •
          (r.val : ZMod c.order) • c.basePoint := by
      rw [← sub_ne_zero, smul_masked_sub]
      exact smul_ne_zero hK hM
    rw [ElGamal.result_decryptIn (c.decodePair_of_holds hd hp' hq') hx
      (hops.difference_coordinates ..) hne, smul_masked_sub, hb]

theorem re_encryption_generator :
    ∃ (keys : ElGamal .secp192r1) (x : Key .secp192r1) (e : ReEncryptor .secp192r1) (m b : Bytes)
      (pq out : Bytes × Bytes), keys.Made ∧ keys.privateKey = some x ∧ x.val = 2 ∧ e.key.val = 3 ∧
      (keys.encrypt (.bytes m)).result { supply := [0] } = .ok pq ∧
      applyPair [e] pq = .ok out ∧ Layer.applyAll [e.layer] (.bytes m) = .ok b ∧
      (keys.decryptIn Curve.secp192r1.plain (.ofPair out)).result {} = .ok b ∧
      (keys.decrypt (.ofPair out)).result {} = .ok b := by
  obtain ⟨keys, made, hx⟩ :=
    ElGamal.exists_made (c := .secp192r1) ⟨2, by decide, by decide +kernel⟩
  obtain ⟨cipher, hcipher, hkey⟩ :=
    Cipher.exists_made (c := .secp192r1) ⟨3, by decide, by decide +kernel⟩
  have hr := Curve.secp192r1.supplies_one (r := Curve.secp192r1.keyOne) rfl
  obtain ⟨p, m, hp, hm, hencrypt⟩ := ElGamal.exists_encrypt_basePoint made hx (by decide) hr
  have hread := Curve.secp192r1.decodePoint_of_encodePoint hm
  let e : ReEncryptor .secp192r1 := ⟨cipher, hcipher, {}⟩
  obtain ⟨hmessage, -⟩ := re_encryption Curve.isGroup_plain made hx [e] hr
  obtain ⟨out, b, -, hall, -, -, -, hdecrypt⟩ := hmessage _ _ _ hread hencrypt
  obtain ⟨happly, hlayers⟩ := hall [e] (.refl _)
  have hplain := hdecrypt _ {} (Datum.holds_ofPair out)
  -- the first part has become the multiple by three, and the double of that has another weight
  -- than one
  have hG := Curve.secp192r1.basePoint_ne_zero
  have hval : e.key.val = 3 := congrArg Key.val hkey
  obtain ⟨p', q', happly', hp', hq'⟩ := exists_applyPair [e] hG hG hp hp
  cases happly.symm.trans happly'
  have hout := Curve.secp192r1.decodePair_of_holds (Datum.holds_ofPair (p', q')) hp' hq'
  rw [List.map_singleton, keyProduct_singleton, ← ElGamal.smul_key, Curve.coordinates_basePoint,
    hval] at hout
  refine ⟨keys, _, e, m, b, (p, p), _, made, hx, rfl, hval, hencrypt, happly, hlayers, hplain, ?_⟩
  rw [ElGamal.result_decrypt_eq_of_weight_ne_one Curve.isGroup_plain hx hout (by decide +kernel),
    hplain]

end ReEncryptor

end CurveLock

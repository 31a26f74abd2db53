import CurveLock.Proofs.Cipher.Collision

/-!
# One key from any point to any other

The group has prime order, so of two finite points one is the multiple of the other by exactly one
key.  What a cipher makes of a ciphertext or of a plaintext is the point that it stands for,
multiplied by the key and written (`Cipher.Multiplies`), and so exactly one key takes a given
ciphertext, or a given plaintext, to another given ciphertext (`Cipher.simply_transitive`).  A
ciphertext alone tells nothing of the plaintext: there is one key for every point to which a
plaintext can be hashed.
-/

namespace CurveLock

namespace Cipher

variable {c : Curve}

/-- An operation of every cipher that multiplies the point by the key and writes the result, from
whatever scratch. -/
def Multiplies (x : Cipher c → Metered Bytes) (A : c.equation.Group) : Prop :=
  ∀ (cipher : Cipher c) (s : Scratch), (x cipher).result s =
    c.encodePoint (c.equation.coordinates ((cipher.key.val : ZMod c.order) • A))

theorem multiplies_reEncrypt {A : c.equation.Group} (hA : A ≠ 0) {d : Datum}
    (hd : c.decodePoint d = .ok (c.equation.coordinates A)) :
    Multiplies (fun cipher => cipher.reEncrypt d) A := by
  intro cipher s
  obtain ⟨b, hb, hrun⟩ := cipher.exists_run_reEncrypt hA hd
  exact (Metered.result_of_forall_run hrun s).trans hb.symm

theorem multiplies_encrypt {A : c.equation.Group} (hA : A ≠ 0) {m : Datum}
    (h : c.Hashes m (c.equation.coordinates A)) :
    Multiplies (fun cipher => cipher.encrypt m) A := by
  intro cipher s
  obtain ⟨b, hb, hrun⟩ := cipher.exists_run_encrypt hA h
  exact (Metered.result_of_forall_run hrun s).trans hb.symm

/-- A plaintext whose encryption returns is hashed to a point. -/
theorem exists_hashes_of_result_encrypt {cipher : Cipher c} {m : Datum} {s : Scratch} {f : Bytes}
    (h : (cipher.encrypt m).result s = .ok f) : ∃ P, c.Hashes m P := by
  obtain ⟨s', hrun⟩ := Metered.exists_run_of_result_eq_ok h
  simp only [encrypt, Metered.run_bind_eq_ok_iff] at hrun
  obtain ⟨message, s₁, hm, P, s₂, hP, -⟩ := hrun
  exact ⟨P, message, s₁, s₂, (Metered.run_lift_eq_ok_iff.1 hm).1, hP⟩

namespace Multiplies

variable {x x' : Cipher c → Metered Bytes} {A B : c.equation.Group}

/-- A ciphertext of the product is returned under the key that takes one point to the other. -/
theorem result_eq_ok_iff (h : Multiplies x A) {f : Bytes}
    (hf : c.encodePoint (c.equation.coordinates B) = .ok f) (cipher : Cipher c) (s : Scratch) :
    (x cipher).result s = .ok f ↔ (cipher.key.val : ZMod c.order) • A = B := by
  rw [h cipher s, c.encodePoint_coordinates_iff hf]

/-- **Exactly one key gives a ciphertext.** -/
theorem existsUnique_key (h : Multiplies x A) (hA : A ≠ 0) (hB : B ≠ 0) {f : Bytes}
    (hf : c.encodePoint (c.equation.coordinates B) = .ok f) :
    ∃! key : Key c, ∀ (cipher : Cipher c) (s : Scratch), cipher.key = key →
      (x cipher).result s = .ok f := by
  simp only [h.result_eq_ok_iff hf]
  obtain ⟨key, hkey, hunique⟩ := c.existsUnique_key_smul hA hB
  refine ⟨key, ?_, fun key' hkey' => ?_⟩
  · rintro cipher - rfl
    exact hkey
  · obtain ⟨cipher, -, rfl⟩ := exists_made key'
    exact hunique cipher.key (hkey' cipher {} rfl)

/-- Two ciphers that give the same ciphertext for one point have the same key. -/
theorem key_eq (h : Multiplies x A) (h' : Multiplies x' A) (hA : A ≠ 0) {k l : Cipher c}
    {s s' : Scratch} {f : Bytes} (hk : (x k).result s = .ok f) (hl : (x' l).result s' = .ok f) :
    k.key = l.key := by
  rw [h k s] at hk
  rw [h' l s', c.encodePoint_coordinates_iff hk] at hl
  obtain ⟨hinjective, -⟩ := c.smul_left_bijective hA
  exact (c.key_cast_injective (hinjective hl)).symm

end Multiplies

/-- **The keys act simply transitively on ciphertexts.**  Every key in `[1, n - 1]` has a cipher,
and exactly one of them takes a given ciphertext to another given one.  So ciphers with different
keys never give the same ciphertext, neither for two ciphertexts that spell one point nor for one
plaintext; and whatever point a plaintext is hashed to, exactly one key encrypts it as a given
ciphertext. -/
theorem simply_transitive (c : Curve) :
    (∀ key : Key c, ∃ cipher : Cipher c, cipher.Made ∧ cipher.key = key) ∧
    (∀ (d : Datum) (f : Bytes), (∃ P, c.decodePoint d = .ok P) →
      (∃ Q, c.decodePoint (.bytes f) = .ok Q) →
      ∃! key : Key c, ∀ (cipher : Cipher c) (s : Scratch), cipher.key = key →
        (cipher.reEncrypt d).result s = .ok f) ∧
    (∀ k l : Cipher c, k.key ≠ l.key → ∀ (s s' : Scratch) (f : Bytes),
      (∀ (d d' : Datum) (P : Point), c.decodePoint d = .ok P → c.decodePoint d' = .ok P →
        (k.reEncrypt d).result s = .ok f → (l.reEncrypt d').result s' ≠ .ok f) ∧
      ∀ m : Datum, (k.encrypt m).result s = .ok f → (l.encrypt m).result s' ≠ .ok f) ∧
    ∀ (m : Datum) (f : Bytes), (∃ P, c.Hashes m P) → (∃ Q, c.decodePoint (.bytes f) = .ok Q) →
      ∃! key : Key c, ∀ (cipher : Cipher c) (s : Scratch), cipher.key = key →
        (cipher.encrypt m).result s = .ok f := by
  -- a ciphertext that is read is what is written for the point
  have hwritten : ∀ f : Bytes, (∃ Q, c.decodePoint (.bytes f) = .ok Q) →
      ∃ B : c.equation.Group, B ≠ 0 ∧ c.encodePoint (c.equation.coordinates B) = .ok f := by
    rintro f ⟨Q, hQ⟩
    obtain ⟨B, hB, rfl, b, hb, hencode⟩ := c.exists_of_decodePoint hQ
    obtain rfl := Option.some.inj hb
    exact ⟨B, hB, hencode⟩
  refine ⟨exists_made, ?_, ?_, ?_⟩
  · rintro d f ⟨P, hP⟩ hf
    obtain ⟨A, hA, rfl, -⟩ := c.exists_of_decodePoint hP
    obtain ⟨B, hB, hencode⟩ := hwritten f hf
    exact (multiplies_reEncrypt hA hP).existsUnique_key hA hB hencode
  · intro k l hne s s' f
    refine ⟨fun d d' P hP hP' hk hl => hne ?_, fun m hk hl => hne ?_⟩
    · obtain ⟨A, hA, rfl, -⟩ := c.exists_of_decodePoint hP
      exact (multiplies_reEncrypt hA hP).key_eq (multiplies_reEncrypt hA hP') hA hk hl
    · obtain ⟨P, hm⟩ := exists_hashes_of_result_encrypt hk
      obtain ⟨A, hA, rfl⟩ := hm.exists_coordinates
      exact (multiplies_encrypt hA hm).key_eq (multiplies_encrypt hA hm) hA hk hl
  · rintro m f ⟨P, hm⟩ hf
    obtain ⟨A, hA, rfl⟩ := hm.exists_coordinates
    obtain ⟨B, hB, hencode⟩ := hwritten f hf
    exact (multiplies_encrypt hA hm).existsUnique_key hA hB hencode

theorem simply_transitive_double :
    ∃ (two three : Cipher .secp192r1) (e f : Bytes) (P : Point), two.Made ∧ two.key.val = 2 ∧
      three.key.val = 3 ∧ Curve.secp192r1.encodePoint Curve.secp192r1.generator = .ok e ∧
      (two.reEncrypt (.bytes e)).result {} = .ok f ∧
      (three.reEncrypt (.bytes e)).result {} ≠ .ok f ∧
      (∃! key : Key .secp192r1, ∀ (cipher : Cipher .secp192r1) (s : Scratch), cipher.key = key →
        (cipher.reEncrypt (.bytes e)).result s = .ok f) ∧
      Curve.secp192r1.Hashes (.bytes [0x61]) P ∧
      ∃! key : Key .secp192r1, ∀ (cipher : Cipher .secp192r1) (s : Scratch), cipher.key = key →
        (cipher.encrypt (.bytes [0x61])).result s = .ok f := by
  obtain ⟨hmade, htransitive, hdiffer, hconsistent⟩ := simply_transitive .secp192r1
  obtain ⟨two, made, htwo⟩ := hmade ⟨2, by decide, by decide +kernel⟩
  obtain ⟨three, -, hthree⟩ := hmade ⟨3, by decide, by decide +kernel⟩
  have hne := Curve.secp192r1.basePoint_ne_zero
  obtain ⟨e, he⟩ := Curve.secp192r1.exists_encodePoint_coordinates hne
  have hread := Curve.secp192r1.decodePoint_of_encodePoint he
  obtain ⟨f, hf, hrun⟩ := two.exists_run_reEncrypt hne hread
  obtain ⟨s, hs⟩ := hrun {}
  have hresult := Metered.result_eq_ok hs
  have hf' := Curve.secp192r1.decodePoint_of_encodePoint hf
  obtain ⟨P, ⟨t, ht⟩, -⟩ := exists_common_hash
  have hhashes : Curve.secp192r1.Hashes (.bytes [0x61]) P := ⟨_, _, _, rfl, ht⟩
  have hkeys : two.key ≠ three.key := by
    rw [htwo, hthree]
    decide
  rw [Curve.coordinates_basePoint] at he
  exact ⟨two, three, e, f, P, made, by rw [htwo], by rw [hthree], he, hresult,
    (hdiffer two three hkeys {} {} f).1 _ _ _ hread hread hresult,
    htransitive _ f ⟨_, hread⟩ ⟨_, hf'⟩, hhashes, hconsistent _ f ⟨P, hhashes⟩ ⟨_, hf'⟩⟩

end Cipher

end CurveLock

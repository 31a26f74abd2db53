import CurveLock.Proofs.ElGamal.Ciphertexts

/-!
# Which values are accepted

Every operation that reads points accepts exactly the values that spell them, whatever their type,
and refuses all others as arguments, never in another way.  What it returns spells points again, so
that it can be handed to the next operation.

* `Curve.Good`, `Curve.GoodPair`: the values that spell one point, and two;
* `Guarded`: a result that is returned under a condition, and otherwise a refusal;
* `Curve.acceptance`: the operations of ciphers and of ElGamal users;
* `Curve.decrypt_refuses_good_pair`: the pairs that a user with the private key one refuses besides.
-/

namespace CurveLock

/-- The result is returned under the condition, with the property, and is otherwise a refusal. -/
def Guarded {α : Type} (result : Except Failure α) (condition : Prop) (property : α → Prop) :
    Prop :=
  (condition ∧ ∃ a, result = .ok a ∧ property a) ∨
    (¬ condition ∧ ∃ r, result = .error (.refused r))

namespace Curve

variable (c : Curve)

/-- The values that spell a point: byte strings, whether or not their holder can change them, that
are read. -/
def Good (d : Datum) : Prop := ∃ b P, d.bytes? = some b ∧ c.decodePoint d = .ok P

/-- The values that hold two of these and nothing else, and the points that they spell. -/
def GoodPair (d : Datum) (C₁ C₂ : Point) : Prop :=
  ∃ d₁ d₂, d.pair? = some (d₁, d₂) ∧ c.Good d₁ ∧ c.Good d₂ ∧
    c.decodePoint d₁ = .ok C₁ ∧ c.decodePoint d₂ = .ok C₂

theorem good_iff {d : Datum} : c.Good d ↔ ∃ P, c.decodePoint d = .ok P := by
  constructor
  · rintro ⟨-, P, -, hP⟩
    exact ⟨P, hP⟩
  · rintro ⟨P, hP⟩
    obtain ⟨-, -, -, b, hb, -⟩ := c.exists_of_decodePoint hP
    exact ⟨b, P, hb, hP⟩

theorem goodPair_iff {d : Datum} {C₁ C₂ : Point} :
    c.GoodPair d C₁ C₂ ↔ c.decodePair d = .ok (C₁, C₂) := by
  rw [c.decodePair_eq_ok_iff]
  constructor
  · rintro ⟨d₁, d₂, hpair, -, -, h₁, h₂⟩
    exact ⟨d₁, d₂, hpair, h₁, h₂⟩
  · rintro ⟨d₁, d₂, hpair, h₁, h₂⟩
    exact ⟨d₁, d₂, hpair, c.good_iff.2 ⟨_, h₁⟩, c.good_iff.2 ⟨_, h₂⟩, h₁, h₂⟩

/-- What is written for a point is accepted. -/
theorem good_of_encodePoint {A : c.equation.Group} {b : Bytes}
    (h : c.encodePoint (c.equation.coordinates A) = .ok b) : c.Good (.bytes b) :=
  c.good_iff.2 ⟨_, c.decodePoint_of_encodePoint h⟩

/-- An operation that reads one point first is guarded by it. -/
theorem guarded_good {α : Type} {d : Datum} {result : Except Failure α} {property : α → Prop}
    (hok : ∀ A : c.equation.Group, A ≠ 0 → c.decodePoint d = .ok (c.equation.coordinates A) →
      ∃ a, result = .ok a ∧ property a)
    (herror : ∀ r, c.decodePoint d = .error (.refused r) → result = .error (.refused r)) :
    Guarded result (c.Good d) property := by
  rcases c.decodePoint_cases d with ⟨-, P, -, -, -, hP⟩ | ⟨r, hr⟩
  · obtain ⟨A, hA, rfl, -⟩ := c.exists_of_decodePoint hP
    exact Or.inl ⟨c.good_iff.2 ⟨_, hP⟩, hok A hA hP⟩
  · refine Or.inr ⟨fun hgood => ?_, r, herror r hr⟩
    obtain ⟨P, hP⟩ := c.good_iff.1 hgood
    rw [hr] at hP
    cases hP

/-- An operation that reads a pair of points first is guarded by it, and by what it asks of the
points. -/
theorem guarded_goodPair {α : Type} {d : Datum} {result : Except Failure α} {property : α → Prop}
    {asked : Point → Point → Prop}
    (hok : ∀ A B : c.equation.Group, A ≠ 0 → B ≠ 0 →
      c.decodePair d = .ok (c.equation.coordinates A, c.equation.coordinates B) →
      asked (c.equation.coordinates A) (c.equation.coordinates B) →
      ∃ a, result = .ok a ∧ property a)
    (hnot : ∀ A B : c.equation.Group, A ≠ 0 → B ≠ 0 →
      c.decodePair d = .ok (c.equation.coordinates A, c.equation.coordinates B) →
      ¬ asked (c.equation.coordinates A) (c.equation.coordinates B) →
      ∃ r, result = .error (.refused r))
    (herror : ∀ r, c.decodePair d = .error (.refused r) → result = .error (.refused r)) :
    Guarded result (∃ C₁ C₂, c.GoodPair d C₁ C₂ ∧ asked C₁ C₂) property := by
  rcases c.decodePair_cases d with ⟨C₁, C₂, hpair⟩ | ⟨r, hr⟩
  · obtain ⟨A, B, hA, hB, rfl, rfl, -⟩ := c.exists_of_decodePair hpair
    by_cases hasked : asked (c.equation.coordinates A) (c.equation.coordinates B)
    · exact Or.inl ⟨⟨_, _, c.goodPair_iff.2 hpair, hasked⟩, hok A B hA hB hpair hasked⟩
    · refine Or.inr ⟨?_, hnot A B hA hB hpair hasked⟩
      rintro ⟨C₁, C₂, hgood, hasked'⟩
      cases hpair.symm.trans (c.goodPair_iff.1 hgood)
      exact hasked hasked'
  · refine Or.inr ⟨?_, r, herror r hr⟩
    rintro ⟨C₁, C₂, hgood, -⟩
    cases hr.symm.trans (c.goodPair_iff.1 hgood)

end Curve

/-! ### The operations, one by one -/

variable {c : Curve}

theorem Cipher.guarded_reEncrypt (cipher : Cipher c) (d : Datum) (s : Scratch) :
    Guarded ((cipher.reEncrypt d).result s) (c.Good d) fun b => c.Good (.bytes b) := by
  refine c.guarded_good (fun A hA hd => ?_) (fun r hr => ?_)
  · obtain ⟨b, hb, hrun⟩ := cipher.exists_run_reEncrypt hA hd
    exact ⟨b, Metered.result_of_forall_run hrun s, c.good_of_encodePoint hb⟩
  · rw [reEncrypt, hr, Metered.result_bind_error (Metered.run_lift_error _ s)]

theorem Cipher.Made.guarded_decrypt {cipher : Cipher c} (made : cipher.Made) (d : Datum)
    (s : Scratch) :
    Guarded ((cipher.decrypt d).result s) (c.Good d) fun b => c.Good (.bytes b) := by
  refine c.guarded_good (fun A hA hd => ?_) (fun r hr => ?_)
  · obtain ⟨b, hb, hrun⟩ := made.exists_run_decrypt hA hd
    exact ⟨b, Metered.result_of_forall_run hrun s, c.good_of_encodePoint hb⟩
  · rw [decrypt, hr, Metered.result_bind_error (Metered.run_lift_error _ s)]

theorem ElGamal.guarded_ofPublic (d : Datum) (s : Scratch) :
    Guarded ((ElGamal.ofPublic c d).result s) (c.Good d)
      fun keys => ∃ b, keys.publicBytes = .ok b ∧ c.Good (.bytes b) := by
  refine c.guarded_good (fun A hA hd => ?_) (fun r hr => ?_)
  · obtain ⟨b, hb⟩ := c.exists_encodePoint_coordinates hA
    refine ⟨⟨_, none⟩, ?_, b, hb, c.good_of_encodePoint hb⟩
    rw [ofPublic, hd, Metered.result_bind (Metered.run_lift_ok _ s)]
    rfl
  · rw [ofPublic, hr, Metered.result_bind_error (Metered.run_lift_error _ s)]

theorem Cipher.guarded_reEncryptPair (cipher : Cipher c) (d : Datum) (s : Scratch) :
    Guarded ((cipher.reEncryptPair d).result s) (∃ C₁ C₂, c.GoodPair d C₁ C₂)
      fun pq => c.Good (.bytes pq.1) ∧ c.Good (.bytes pq.2) := by
  have hguarded : Guarded ((cipher.reEncryptPair d).result s)
      (∃ C₁ C₂, c.GoodPair d C₁ C₂ ∧ True)
      fun pq => c.Good (.bytes pq.1) ∧ c.Good (.bytes pq.2) := by
    refine c.guarded_goodPair (fun A B hA hB hd _ => ?_) (fun A B _ _ _ h => absurd trivial h)
      (fun r hr => ?_)
    · obtain ⟨p, q, hp, hq, hrun⟩ := cipher.exists_run_reEncryptPair hA hB hd
      exact ⟨(p, q), Metered.result_of_forall_run hrun s, c.good_of_encodePoint hp,
        c.good_of_encodePoint hq⟩
    · rw [reEncryptPair, hr, Metered.result_bind_error (Metered.run_lift_error _ s)]
  simpa only [and_true] using hguarded

theorem ElGamal.guarded_decrypt {keys : ElGamal c} {x : Key c} (hx : keys.privateKey = some x)
    (d : Datum) (s : Scratch) :
    Guarded ((keys.decrypt d).result s)
      (∃ C₁ C₂, c.GoodPair d C₁ C₂ ∧ C₂ ≠ c.smul x.val C₁ ∧ ¬ Curve.Misread x C₁ C₂)
      fun b => c.Good (.bytes b) := by
  refine c.guarded_goodPair (fun A B _ hB hd h => ?_) (fun A B _ hB hd h => ?_) (fun r hr => ?_)
  · obtain ⟨hne, hread⟩ := h
    rw [smul_key, c.equation.coordinates_injective.ne_iff] at hne
    obtain ⟨b, hb⟩ := c.exists_encodePoint_coordinates (sub_ne_zero.2 hne)
    exact ⟨b, by rw [result_decrypt hd hx hB hne hread, hb], c.good_of_encodePoint hb⟩
  · refine ⟨.decryptsToInfinity, result_decrypt_infinity hd hx hB ?_ s⟩
    rw [smul_key, c.equation.coordinates_injective.ne_iff] at h
    by_contra hnot
    exact h (not_or.1 hnot)
  · exact result_decryptIn_of_refused hx hr s

/-- Encrypting refuses what spells no point, and fails in no other way than where the masked message
is infinity. -/
theorem ElGamal.Made.encrypt_outcome {keys : ElGamal c} (made : keys.Made) (d : Datum) {r : Key c}
    {s : Scratch} (hr : s.Supplies r) :
    ((∃ f, (keys.encrypt d).result s = .error (.refused f)) ↔ ¬ c.Good d) ∧
    ∀ P, c.decodePoint d = .ok P →
      (c.add P (c.smul r.val keys.publicKey) = .infinity →
        (keys.encrypt d).result s = .error (.broken .infinityHasNoEncoding)) ∧
      (c.add P (c.smul r.val keys.publicKey) ≠ .infinity →
        ∃ pq, (keys.encrypt d).result s = .ok pq ∧ c.Good (.bytes pq.1) ∧
          c.Good (.bytes pq.2)) := by
  rcases c.decodePoint_cases d with ⟨-, P, -, -, -, hP⟩ | ⟨f, hf⟩
  · have hgood : c.Good d := c.good_iff.2 ⟨P, hP⟩
    have hcases := made.result_encrypt_cases hP hr
    refine ⟨⟨fun ⟨f, h⟩ => ?_, fun h => absurd hgood h⟩, fun P' hP' => ?_⟩
    · rcases hcases with ⟨-, herror⟩ | ⟨-, p, q, hok, -⟩
      · rw [herror] at h
        cases h
      · rw [hok] at h
        cases h
    · cases hP.symm.trans hP'
      rcases hcases with ⟨hinfinity, herror⟩ | ⟨hfinite, p, q, hok, hp, hq⟩
      · exact ⟨fun _ => herror, fun h => absurd hinfinity h⟩
      · obtain ⟨Y, -, hY⟩ := made.exists_publicKey
        obtain ⟨M, -, rfl, -⟩ := c.exists_of_decodePoint hP
        rw [add_mask hY] at hq
        rw [smul_generator_key] at hp
        exact ⟨fun h => absurd h hfinite,
          fun _ => ⟨(p, q), hok, c.good_of_encodePoint hp, c.good_of_encodePoint hq⟩⟩
  · refine ⟨⟨fun _ hgood => ?_, fun _ => ⟨f, result_encrypt_of_refused keys hf s⟩⟩, fun P hP => ?_⟩
    · obtain ⟨P, hP⟩ := c.good_iff.1 hgood
      cases hf.symm.trans hP
    · cases hf.symm.trans hP

/-! ### The law -/

namespace Curve

/-- **Acceptance is exact, and what is returned is accepted again.**  For every value of any type: a
cipher encrypts again and decrypts exactly what spells a point, from which also a public key is
made, and encrypts again exactly the pairs of these.  An ElGamal user encrypts what spells a point,
unless the masked message is infinity, which is an internal error; with the private key the user
decrypts exactly the pairs whose second part is not the mask, unless they are misread, and without
it nothing.  Everything else is refused. -/
theorem acceptance (c : Curve) (d : Datum) (s : Scratch) :
    (∀ cipher : Cipher c,
      Guarded ((cipher.reEncrypt d).result s) (c.Good d) (fun b => c.Good (.bytes b)) ∧
      Guarded ((cipher.reEncryptPair d).result s) (∃ C₁ C₂, c.GoodPair d C₁ C₂)
        (fun pq => c.Good (.bytes pq.1) ∧ c.Good (.bytes pq.2))) ∧
    (∀ cipher : Cipher c, cipher.Made →
      Guarded ((cipher.decrypt d).result s) (c.Good d) (fun b => c.Good (.bytes b))) ∧
    Guarded ((ElGamal.ofPublic c d).result s) (c.Good d)
      (fun keys => ∃ b, keys.publicBytes = .ok b ∧ c.Good (.bytes b)) ∧
    (∀ keys : ElGamal c, keys.Made → ∀ r : Key c, s.Supplies r →
      ((∃ f, (keys.encrypt d).result s = .error (.refused f)) ↔ ¬ c.Good d) ∧
      ∀ P, c.decodePoint d = .ok P →
        (c.add P (c.smul r.val keys.publicKey) = .infinity →
          (keys.encrypt d).result s = .error (.broken .infinityHasNoEncoding)) ∧
        (c.add P (c.smul r.val keys.publicKey) ≠ .infinity →
          ∃ pq, (keys.encrypt d).result s = .ok pq ∧ c.Good (.bytes pq.1) ∧
            c.Good (.bytes pq.2))) ∧
    (∀ (keys : ElGamal c) (x : Key c), keys.privateKey = some x →
      Guarded ((keys.decrypt d).result s)
        (∃ C₁ C₂, c.GoodPair d C₁ C₂ ∧ C₂ ≠ c.smul x.val C₁ ∧ ¬ Curve.Misread x C₁ C₂)
        (fun b => c.Good (.bytes b))) ∧
    (∀ keys : ElGamal c, keys.privateKey = none →
      ∃ f, (keys.decrypt d).result s = .error (.refused f)) :=
  ⟨fun cipher => ⟨cipher.guarded_reEncrypt d s, cipher.guarded_reEncryptPair d s⟩,
    fun _ made => made.guarded_decrypt d s, ElGamal.guarded_ofPublic d s,
    fun _ made _ hr => made.encrypt_outcome d hr, fun _ _ hx => ElGamal.guarded_decrypt hx d s,
    fun _ hx => ⟨_, ElGamal.result_decryptIn_of_public hx s⟩⟩

theorem acceptance_generator :
    ∃ (keys : ElGamal .secp192r1) (cipher : Cipher .secp192r1) (b b' : Bytes) (pq : Bytes × Bytes)
      (f : Rejection), keys.Made ∧ cipher.Made ∧
      Curve.secp192r1.encodePoint Curve.secp192r1.generator = .ok b ∧
      (cipher.decrypt (.byteArray b)).result {} = .ok b' ∧ Curve.secp192r1.Good (.bytes b') ∧
      (keys.encrypt (.byteArray b)).result { supply := [0] } = .ok pq ∧
      (keys.decrypt .null).result {} = .error (.refused f) := by
  obtain ⟨keys, made, hx⟩ :=
    ElGamal.exists_made (c := .secp192r1) ⟨2, by decide, by decide +kernel⟩
  obtain ⟨cipher, hcipher, -⟩ :=
    Cipher.exists_made (c := .secp192r1) ⟨3, by decide, by decide +kernel⟩
  have hr := Curve.secp192r1.supplies_one (r := ⟨1, by decide, by decide +kernel⟩) rfl
  obtain ⟨b, hb⟩ := Curve.secp192r1.exists_encodePoint_coordinates
    Curve.secp192r1.basePoint_ne_zero
  have hread : Curve.secp192r1.decodePoint (.byteArray b) = .ok Curve.secp192r1.generator := by
    rw [← Curve.coordinates_basePoint]
    exact Curve.secp192r1.decodePoint_of_encodePoint hb
  rw [Curve.coordinates_basePoint] at hb
  have hgood := (Curve.good_iff _).2 ⟨_, hread⟩
  have hfinite : Curve.secp192r1.add Curve.secp192r1.generator
      (Curve.secp192r1.smul (1 : ℕ) keys.publicKey) ≠ .infinity := by
    rw [made.publicKey_eq hx]
    decide +kernel
  obtain ⟨-, hdecrypt, -⟩ := acceptance .secp192r1 (.byteArray b) {}
  obtain ⟨-, -, -, hencrypt, -⟩ := acceptance .secp192r1 (.byteArray b) { supply := [0] }
  obtain ⟨-, -, -, -, hnull, -⟩ := acceptance .secp192r1 .null {}
  rcases hdecrypt cipher hcipher with ⟨-, b', hb', hgood'⟩ | ⟨hbad, -⟩
  · obtain ⟨pq, hpq, -⟩ := ((hencrypt keys made _ hr).2 _ hread).2 hfinite
    rcases hnull keys _ hx with ⟨⟨C₁, C₂, hpair, -⟩, -⟩ | ⟨-, f, hf⟩
    · cases (Curve.goodPair_iff _).1 hpair
    · exact ⟨keys, cipher, b, b', pq, f, made, hcipher, hb, hb', hgood', hpq, hf⟩
  · exact absurd hgood hbad

/-- **A user with the private key one refuses a pair of finite points whose second part is not the
mask.** -/
theorem decrypt_refuses_good_pair :
    ∃ (keys : ElGamal .secp192r1) (x : Key .secp192r1) (d : Datum) (C₁ C₂ : Point),
      keys.Made ∧ keys.privateKey = some x ∧ x.val = 1 ∧ C₁ = Curve.secp192r1.generator ∧
      Curve.secp192r1.GoodPair d C₁ C₂ ∧ C₂ ≠ Curve.secp192r1.smul x.val C₁ ∧
      (keys.decrypt d).result {} = .error (.refused .decryptsToInfinity) := by
  obtain ⟨keys, made, hx⟩ :=
    ElGamal.exists_made (c := .secp192r1) ⟨1, by decide, by decide +kernel⟩
  have hG := Curve.secp192r1.basePoint_ne_zero
  obtain ⟨p, hp⟩ := Curve.secp192r1.exists_encodePoint_coordinates hG
  obtain ⟨q, hq⟩ := Curve.secp192r1.exists_encodePoint_coordinates (neg_ne_zero.2 hG)
  have hread := Curve.secp192r1.decodePair_of_holds (Datum.holds_ofPair (p, q)) hp hq
  refine ⟨keys, _, .ofPair (p, q), _, _, made, hx, rfl, Curve.secp192r1.coordinates_basePoint,
    (Curve.goodPair_iff _).2 hread, ?_, ?_⟩
  · rw [ElGamal.smul_key, ElGamal.smul_key_of_val_eq_one rfl,
      Curve.secp192r1.equation.coordinates_injective.ne_iff, ne_comm, Ne, ← add_eq_zero_iff_eq_neg,
      ← two_nsmul]
    exact Curve.secp192r1.equation.two_nsmul_ne_zero hG
  · exact ElGamal.result_decrypt_infinity hread hx (neg_ne_zero.2 hG)
      (Or.inr (Curve.misread_neg hG)) {}

end Curve

end CurveLock

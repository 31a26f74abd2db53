import CurveLock.Proofs.Refusal.Operations

/-!
# Points of other curves

The compressed form of a point does not name its curve.  It has the width of the field, though, and
only two of the curves have fields of one width: between `secp256r1` and `secp256k1` a byte string
passes when its coordinate happens to be that of a point of either curve (`Curve.Overlap`).  Between
all others nothing passes, and what does not pass is refused by every operation that reads points
(`Curve.Shuns`).

* `Curve.Emits`: what the ciphers and the ElGamal users of a curve return;
* `Curve.foreign_point`: what becomes of it on another curve;
* `Curve.secp256k1_reads_secp256r1`: the base point of `secp256r1` is read on `secp256k1`.
-/

namespace CurveLock

variable {c : Curve}

/-! ### What is returned for other users -/

namespace Curve

/-- The byte string is what a cipher or an ElGamal user of the curve has returned, or part of it. -/
inductive Emits (c : Curve) : Bytes → Prop
  | encrypt {cipher : Cipher c} {m : Datum} {b : Bytes} {s s' : Scratch}
    (h : (cipher.encrypt m).run s = .ok b s') : Emits c b
  | reEncrypt {cipher : Cipher c} {d : Datum} {b : Bytes} {s s' : Scratch}
    (h : (cipher.reEncrypt d).run s = .ok b s') : Emits c b
  | decrypt {cipher : Cipher c} {d : Datum} {b : Bytes} {s s' : Scratch}
    (h : (cipher.decrypt d).run s = .ok b s') : Emits c b
  | reEncryptPair {cipher : Cipher c} {d : Datum} {p q b : Bytes} {s s' : Scratch}
    (h : (cipher.reEncryptPair d).run s = .ok (p, q) s') (hb : b = p ∨ b = q) : Emits c b
  | elGamalEncrypt {keys : ElGamal c} (made : keys.Made) {m : Datum} {p q b : Bytes}
      {s s' : Scratch}
    (h : (keys.encrypt m).run s = .ok (p, q) s') (hb : b = p ∨ b = q) : Emits c b
  | elGamalEncryptIdentity {keys : ElGamal c} (made : keys.Made) {p q b : Bytes} {s s' : Scratch}
    (h : keys.encryptIdentity.run s = .ok (p, q) s') (hb : b = p ∨ b = q) : Emits c b
  | elGamalDecrypt {keys : ElGamal c} {d : Datum} {b : Bytes} {s s' : Scratch}
    (h : (keys.decrypt d).run s = .ok b s') : Emits c b

/-- **What is returned is the compressed form of a point.** -/
theorem Emits.writes {b : Bytes} (h : c.Emits b) : c.Writes b := by
  have either {p q : Bytes} (hb : b = p ∨ b = q) (h : c.Writes p ∧ c.Writes q) : c.Writes b := by
    rcases hb with rfl | rfl
    · exact h.1
    · exact h.2
  cases h with
  | encrypt h => exact (Cipher.cautious_encrypt _ _).of_run h
  | reEncrypt h => exact (Cipher.cautious_decodePoint_scale _ _).of_run h
  | decrypt h => exact (Cipher.cautious_decodePoint_scale _ _).of_run h
  | reEncryptPair h hb => exact either hb ((Cipher.cautious_reEncryptPair _ _).of_run h)
  | elGamalEncrypt made h hb => exact either hb ((made.cautious_encrypt _).of_run h)
  | elGamalEncryptIdentity made h hb =>
    exact either hb (made.proceeds_encryptIdentity.cautious.of_run h)
  | elGamalDecrypt h => exact (ElGamal.cautious_decrypt trivial _ _).of_run h

end Curve

/-! ### What another curve does with it -/

namespace Datum

/-- The value holds two values, and one of them is the given one. -/
def HasPart (e d : Datum) : Prop := ∃ d', e.pair? = some (d, d') ∨ e.pair? = some (d', d)

end Datum

namespace Curve

/-- The value is refused by every operation of the curve that reads points, alone and as one part of
a pair. -/
structure Shuns (c : Curve) (d : Datum) : Prop where
  decodePoint : ∃ r, c.decodePoint d = .error (.refused r)
  reEncrypt : ∀ cipher : Cipher c, (cipher.reEncrypt d).Refuses
  decrypt : ∀ cipher : Cipher c, (cipher.decrypt d).Refuses
  reEncryptPair : ∀ (cipher : Cipher c) (e : Datum), e.HasPart d → (cipher.reEncryptPair e).Refuses
  elGamalOfPublic : (ElGamal.ofPublic c d).Refuses
  elGamalOfPair : ∀ k : Datum, (ElGamal.ofPair c d k).Refuses
  elGamalEncrypt : ∀ keys : ElGamal c, (keys.encrypt d).Refuses
  elGamalDecrypt : ∀ (keys : ElGamal c) (e : Datum), e.HasPart d → (keys.decrypt e).Refuses

theorem decodePair_of_hasPart {d e : Datum} (h : ∃ r, c.decodePoint d = .error (.refused r))
    (he : e.HasPart d) : ∃ r, c.decodePair e = .error (.refused r) := by
  rcases c.decodePair_cases e with ⟨P, Q, hPQ⟩ | hr
  · obtain ⟨d₁, d₂, hpair, h₁, h₂⟩ := c.decodePair_eq_ok_iff.1 hPQ
    obtain ⟨r, hr⟩ := h
    obtain ⟨d', he | he⟩ := he
    · cases hpair.symm.trans he
      cases hr.symm.trans h₁
    · cases hpair.symm.trans he
      cases hr.symm.trans h₂
  · exact hr

/-- **What spells no point of the curve is refused throughout.** -/
theorem shuns_of_refused {d : Datum} (h : ∃ r, c.decodePoint d = .error (.refused r)) :
    c.Shuns d where
  decodePoint := h
  reEncrypt _ := Metered.refuses_lift_bind h
  decrypt _ := Metered.refuses_lift_bind h
  reEncryptPair _ _ he := Metered.refuses_lift_bind (decodePair_of_hasPart h he)
  elGamalOfPublic := Metered.refuses_lift_bind h
  elGamalOfPair _ := Metered.refuses_lift_bind h
  elGamalEncrypt _ := Metered.refuses_lift_bind h
  elGamalDecrypt keys _ he := by
    unfold ElGamal.decrypt ElGamal.decryptIn
    split
    · exact fun s => ⟨_, rfl⟩
    · exact Metered.refuses_lift_bind (decodePair_of_hasPart h he)

/-- The two curves have fields of one width. -/
theorem fieldWidth_eq_iff {c c' : Curve} (h : c ≠ c') : c.fieldWidth = c'.fieldWidth ↔
    (c = .secp256r1 ∧ c' = .secp256k1) ∨ (c = .secp256k1 ∧ c' = .secp256r1) := by
  revert h
  cases c <;> cases c' <;> decide +kernel

/-- A point of the one curve over `x` is written like one of the other curve: both have 256 bits,
and the other has a point over `x`, too. -/
def Overlap (c c' : Curve) (x : ℕ) : Prop :=
  ((c = .secp256r1 ∧ c' = .secp256k1) ∨ (c = .secp256k1 ∧ c' = .secp256r1)) ∧ x < c'.prime ∧
    ∃ z, z ^ 2 ≡ x ^ 3 + c'.equation.a * x + c'.equation.b [MOD c'.prime]

/-- Points of two curves that are written alike lie over one coordinate, have one parity, and
overlap. -/
theorem overlap_of_encoding_eq {c c' : Curve} (hne : c ≠ c') {x y x' z : ℕ} (hx : x < c.prime)
    (hz : c'.equation.Contains (.affine x' z))
    (h : tag y :: Bytes.ofNatWidth c.fieldWidth x = tag z :: Bytes.ofNatWidth c'.fieldWidth x') :
    x' = x ∧ z % 2 = y % 2 ∧ Overlap c c' x := by
  obtain ⟨hx', -, heq⟩ := c'.equation.contains_affine_iff.1 hz
  obtain ⟨htag, hbytes⟩ := List.cons.inj h
  have hwidth := congrArg List.length hbytes
  rw [Bytes.length_ofNatWidth, Bytes.length_ofNatWidth] at hwidth
  have hvalue := congrArg Bytes.toNat hbytes
  rw [c.toNat_coordinate hx, c'.toNat_coordinate hx'] at hvalue
  subst hvalue
  have hparity := (tag_eq_oddTag_iff y).symm.trans (htag ▸ tag_eq_oddTag_iff z)
  exact ⟨rfl, by omega, (fieldWidth_eq_iff hne).1 hwidth, hx', z, c'.modEq_rightSide_iff.2 heq⟩

/-- **Where curves overlap, the other curve has a point that is written alike.** -/
theorem Overlap.spellsPoint {c c' : Curve} (hne : c ≠ c') {x : ℕ} (h : Overlap c c' x) (y : ℕ) :
    c'.SpellsPoint (tag y :: Bytes.ofNatWidth c.fieldWidth x) := by
  obtain ⟨hcurves, hx, z, hz⟩ := h
  rw [(fieldWidth_eq_iff hne).2 hcurves, SpellsPoint, List.tail_cons, c'.toNat_coordinate hx]
  refine ⟨by simp [add_comm], ?_, hx, z, hz⟩
  rw [List.head?_cons, Option.some.injEq, Option.some.injEq]
  exact tag_eq_or y

/-- **A point of one curve is a stranger on every other, except where two curves overlap.**  What is
returned on a curve is the compressed form of a point.  On another curve it is read where the two
overlap, as a point over the same coordinate and of the same parity; otherwise every operation
refuses it and leaves the scratch as it was. -/
theorem foreign_point (c c' : Curve) (hne : c ≠ c') :
    (∀ b, c.Emits b → c.Writes b) ∧
    ∀ (x y : ℕ) (b : Bytes) (d : Datum), c.equation.Contains (.affine x y) →
      c.encodePoint (.affine x y) = .ok b → d.bytes? = some b →
        (Overlap c c' x ∧ ∃ z, z % 2 = y % 2 ∧ c'.decodePoint d = .ok (.affine x z)) ∨
        (¬ Overlap c c' x ∧ c'.Shuns d) := by
  refine ⟨fun b => Emits.writes, fun x y b d hP hb hd => ?_⟩
  have hx : x < c.prime := (c.equation.contains_affine_iff.1 hP).1
  rw [c.encodePoint_affine hx] at hb
  obtain rfl := Except.ok.inj hb
  rcases c'.pointOfBytes_cases (tag y :: Bytes.ofNatWidth c.fieldWidth x) with
    ⟨x', z, hz, heq⟩ | ⟨r, hr⟩
  · obtain ⟨rfl, hparity, hoverlap⟩ := overlap_of_encoding_eq hne hx hz heq
    refine Or.inl ⟨hoverlap, z, hparity, ?_⟩
    rw [c'.decodePoint_eq hd, heq]
    exact c'.pointOfBytes_encoding hz
  · refine Or.inr ⟨fun hoverlap => ?_, shuns_of_refused ⟨r, (c'.decodePoint_eq hd).trans hr⟩⟩
    obtain ⟨P, hP⟩ := c'.exists_pointOfBytes_iff.2 (hoverlap.spellsPoint hne y)
    cases hr.symm.trans hP

theorem foreign_point_generator :
    ∃ b, Curve.secp256r1.encodePoint Curve.secp256r1.generator = .ok b ∧
      Curve.secp224r1.Shuns (.bytes b) := by
  have hcontains : Curve.secp256r1.equation.Contains Curve.secp256r1.generator := by
    decide +kernel
  obtain ⟨b, hb, -⟩ := Curve.secp256r1.exists_encodePoint hcontains (by decide +kernel)
  obtain ⟨-, hforeign⟩ := foreign_point .secp256r1 .secp224r1 (by decide)
  rcases hforeign _ _ b (.bytes b) hcontains hb rfl with ⟨⟨hcurves, -⟩, -⟩ | ⟨-, hshuns⟩
  · exact absurd hcurves (by decide)
  · exact ⟨b, hb, hshuns⟩

/-- **The base point of `secp256r1` is read on `secp256k1`.** -/
theorem secp256k1_reads_secp256r1 :
    ∃ b, Curve.secp256r1.equation.Contains Curve.secp256r1.generator ∧
      Curve.secp256r1.encodePoint Curve.secp256r1.generator = .ok b ∧
      Curve.secp256k1.decodePoint (.bytes b) = .ok (.affine
        0x6b17d1f2e12c4247f8bce6e563a440f277037d812deb33a0f4a13945d898c296
        0xf9bdb293a6a4ec507ced43436080aa412215245359757ee0ddba68ea02975f0d) := by
  have hcontains : Curve.secp256k1.equation.Contains (.affine
      0x6b17d1f2e12c4247f8bce6e563a440f277037d812deb33a0f4a13945d898c296
      0xf9bdb293a6a4ec507ced43436080aa412215245359757ee0ddba68ea02975f0d) := by
    decide +kernel
  refine ⟨_, by decide +kernel, Curve.secp256r1.encodePoint_affine (by decide +kernel) _, ?_⟩
  -- both second coordinates are odd
  exact (Curve.decodePoint_eq _ rfl).trans (Curve.pointOfBytes_encoding _ hcontains)

end Curve

end CurveLock

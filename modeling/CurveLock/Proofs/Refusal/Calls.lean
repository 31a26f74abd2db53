import CurveLock.Call
import CurveLock.Proofs.Refusal.Operations

/-!
# A refused call leaves no trace, or one of known size

An argument is refused before anything is counted, drawn or recorded (`Call.refusal_leaves`).  There
are two exceptions, where the reason is what a computation has resulted in: decrypting counts two
steps until nothing is left of the message, and putting a stored key pair together counts one until
the public key is seen to be another.  No random number is drawn there either, and nothing is
recorded.
-/

namespace CurveLock

namespace Call

/-! ### Every call -/

/-- The operands can come about: keys of an ElGamal user are keys that an operation has made.
Everything else may be anything. -/
def Reachable : Call → Prop
  | elGamalEncrypt _ keys _ | elGamalEncryptIdentity _ keys | elGamalDecrypt _ keys _
  | elGamalPublicBytes _ keys | elGamalPrivateBytes _ keys => keys.Made
  | _ => True

/-- The two operations that find a reason to refuse in what they have computed. -/
inductive FindsLate : Call → Rejection → Prop
  | decrypt {c : Curve} (keys : ElGamal c) (d : Datum) :
    FindsLate (.elGamalDecrypt c keys d) .decryptsToInfinity
  | ofPair (curve p k : Datum) : FindsLate (.elGamalOfPair curve p k) .publicKeyMismatch

/-- An operation that first finds its curve. -/
theorem cautious_find {late : Rejection → Prop} {P : Outcome → Prop} {f : Curve → Metered Outcome}
    {curve : Datum} (h : ∀ c, (f c).Cautious late P) :
    (liftM (Curve.find curve) >>= f).Cautious late P :=
  Metered.cautious_lift_bind (Curve.refusesEarly_find curve) fun c _ => h c

/-- **Every call is cautious**, up to the two exceptions. -/
theorem cautious_run (call : Call) (h : call.Reachable) :
    call.run.Cautious call.FindsLate fun _ => True := by
  cases call with
  -- hashing, random numbers and modular arithmetic
  | sha256 data =>
    exact Metered.cautious_lift_bind data.refusesOnly_byteString fun b _ =>
      (Metered.proceeds_sha256 b).cautious.returning _
  | oracle data bound => exact (Metered.cautious_oracle data bound).returning _
  | mulMod a b modulus => exact (a.proceeds_mulMod b modulus).cautious.returning _
  | powMod base exponent modulus =>
    exact (base.proceeds_powMod exponent modulus).cautious.returning _
  | inverseMod value modulus => exact (value.proceeds_inverseMod modulus).cautious.returning _
  | randomBelow bound => exact bound.cautious_randomBelow.returning _
  | randomBetween low high => exact (low.cautious_randomBetween high).returning _
  -- the group of a curve
  | group curve =>
    exact cautious_find fun c => (Metered.proceeds_pure trivial).cautious
  | randomScalar c => exact c.proceeds_randomScalar.cautious.returning _
  | checkKey c key => exact (Metered.cautious_lift key.refusesEarly_checkKey).returning _
  | encodeScalar c value => exact (Metered.cautious_lift (value.refusesEarly_encode _)).returning _
  | decodeScalar c data =>
    exact (Metered.cautious_lift (c.refusesEarly_decodeScalar data)).returning _
  | encodePoint c point =>
    have hpoint : RefusesEarly (placedPoint point) := by
      unfold placedPoint
      split <;> simp
    exact Metered.cautious_lift_bind hpoint fun P _ =>
      (Metered.cautious_lift (c.refusesEarly_encodePoint _)).returning _
  | decodePoint c data =>
    exact (Metered.cautious_lift (c.refusesEarly_decodePoint data)).returning _
  | rightSide c x => exact (Metered.cautious_lift x.refusesOnly_number).returning _
  | isSquare c value => exact (Metered.cautious_lift value.refusesOnly_isSquare).returning _
  | evenRoot c value => exact (Metered.cautious_lift value.refusesOnly_evenRoot).returning _
  | hashToPoint c message =>
    exact Metered.cautious_lift_bind message.refusesOnly_message fun m _ =>
      (c.proceeds_hashToPoint m).cautious.returning _
  | mul c point scalar => exact (Datum.proceeds_multiple point scalar).cautious.returning _
  | baseMul c scalar => exact (Datum.proceeds_multiple _ scalar).cautious.returning _
  | add c p q => exact (Datum.proceeds_sum p q).cautious.returning _
  -- ciphers
  | createCipher curve =>
    exact cautious_find fun c => (Cipher.proceeds_create c).cautious.returning _
  | restoreCipher curve key =>
    exact cautious_find fun c => (Cipher.cautious_restore key).returning _
  | cipherOfKey c key => exact (Cipher.cautious_ofDatum key).returning _
  | encrypt _ cipher plaintext => exact (cipher.cautious_encrypt plaintext).returning _
  | reEncrypt _ cipher d => exact (Cipher.cautious_decodePoint_scale d _).returning _
  | decrypt _ cipher d => exact (Cipher.cautious_decodePoint_scale d _).returning _
  | reEncryptPair _ cipher d => exact (cipher.cautious_reEncryptPair d).returning _
  | keyBytes _ cipher => exact (Metered.cautious_lift cipher.refusesEarly_keyBytes).returning _
  -- ElGamal
  | createElGamal curve =>
    exact cautious_find fun c => (ElGamal.proceeds_create c).cautious.returning _
  | elGamalOfPublic curve publicKey =>
    exact cautious_find fun c => (ElGamal.cautious_ofPublic publicKey).returning _
  | elGamalOfPair curve p k =>
    exact cautious_find fun c => (ElGamal.cautious_ofPair (.ofPair curve p k) p k).returning _
  | elGamalEncrypt _ keys message => exact (h.cautious_encrypt message).returning _
  | elGamalEncryptIdentity _ keys => exact h.proceeds_encryptIdentity.cautious.returning _
  | elGamalDecrypt _ keys d => exact (ElGamal.cautious_decrypt (.decrypt keys d) keys d).returning _
  | elGamalPublicBytes c keys =>
    exact (Metered.cautious_lift (c.refusesEarly_encodePoint _)).returning _
  | elGamalPrivateBytes _ keys =>
    exact (Metered.cautious_lift keys.refusesEarly_privateBytes).returning _
  -- powers of a fixed base
  | fixedPower fixed exponent => exact (fixed.cautious_power exponent).returning _

/-! ### What refusals leave -/

/-- **What a refusal leaves behind.**  A call that is refused has drawn no random number and
recorded nothing.  It has counted nothing either, with two exceptions: two steps where decrypting
leaves nothing of the message, and one where the public key of a stored pair is another multiple of
the base point.  A fixed base that is refused leaves the defaults of the process as they were,
too. -/
theorem refusal_leaves :
    (∀ (call : Call) (s s' : Scratch) (r : Rejection), call.Reachable →
      call.run.run s = .error (.refused r) s' →
        s' = { s with opCount := s.opCount + r.steps } ∧ (r.steps ≠ 0 → call.FindsLate r)) ∧
    ∀ (d : FixedBase.Defaults) (settings : Option FixedBase.Settings) (base modulus : Datum)
      (s s' : Scratch) (r : Rejection),
      (d.build settings base modulus).1.run s = .error (.refused r) s' →
        s' = s ∧ (d.build settings base modulus).2 = d := by
  refine ⟨fun call s s' r hcall hr => (call.cautious_run hcall).of_refused hr, ?_⟩
  intro d settings base modulus s s' r hr
  obtain ⟨hs, -, hd⟩ := FixedBase.Defaults.refusal_of_build hr
  exact ⟨hs, hd⟩

theorem refusal_leaves_null :
    ∃ (keys : ElGamal .secp192r1) (s' s'' : Scratch),
      (Call.elGamalDecrypt _ keys .null).Reachable ∧
      (Call.elGamalDecrypt _ keys .null).run.run { opCount := 3, supply := [7] } =
        .error (.refused .notAPair) s' ∧
      s' = { opCount := 3, supply := [7] } ∧
      (FixedBase.Defaults.build {} none .null .null).1.run {} = .error (.refused .notIntegers) s'' ∧
      s'' = {} := by
  obtain ⟨keys, made, hx⟩ :=
    ElGamal.exists_made (c := .secp192r1) ⟨2, by decide, by decide +kernel⟩
  have hrun : (Call.elGamalDecrypt _ keys .null).run.run { opCount := 3, supply := [7] } =
      .error (.refused .notAPair) { opCount := 3, supply := [7] } := by
    rw [run, ElGamal.decrypt, ElGamal.decryptIn, hx]
    rfl
  obtain ⟨hs, -⟩ := refusal_leaves.1 (.elGamalDecrypt _ keys .null) _ _ _ made hrun
  exact ⟨keys, _, _, made, hrun, hs, rfl,
    (refusal_leaves.2 {} none .null .null {} _ .notIntegers rfl).1⟩

/-- **Decrypting the multiple of the base point by the private key is refused, and two steps have
been counted.** -/
theorem decrypt_counts_refusal :
    ∃ (keys : ElGamal .secp192r1) (x : Key .secp192r1) (d : Datum),
      (Call.elGamalDecrypt _ keys d).Reachable ∧ keys.privateKey = some x ∧ x.val = 2 ∧
      Curve.secp192r1.decodePair d = .ok (Curve.secp192r1.generator,
        Curve.secp192r1.smul 2 Curve.secp192r1.generator) ∧
      (Call.elGamalDecrypt _ keys d).run.run {} =
        .error (.refused .decryptsToInfinity) { opCount := 2 } := by
  obtain ⟨keys, made, hx⟩ :=
    ElGamal.exists_made (c := .secp192r1) ⟨2, by decide, by decide +kernel⟩
  have hG := Curve.secp192r1.basePoint_ne_zero
  have hY := ElGamal.smul_basePoint_ne_zero (c := .secp192r1) ⟨2, by decide, by decide +kernel⟩
  obtain ⟨p, hp⟩ := Curve.secp192r1.exists_encodePoint_coordinates hG
  obtain ⟨q, hq⟩ := Curve.secp192r1.exists_encodePoint_coordinates hY
  have hread := Curve.secp192r1.decodePair_of_holds (Datum.holds_ofPair (p, q)) hp hq
  obtain ⟨s', hrun⟩ := Metered.exists_run_of_result_eq_error
    (ElGamal.result_decrypt_infinity hread hx hY (Or.inl rfl) {})
  have hcautious : (keys.decrypt (.ofPair (p, q))).Cautious (fun _ => True) _ :=
    ElGamal.cautious_decrypt trivial keys _
  obtain ⟨rfl, -⟩ := hcautious.of_refused hrun
  rw [← ElGamal.smul_generator_key, Curve.coordinates_basePoint] at hread
  refine ⟨keys, _, .ofPair (p, q), made, hx, rfl, hread, ?_⟩
  rw [run, EStateM.run_bind, hrun]
  rfl

end Call

end CurveLock

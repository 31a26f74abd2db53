import CurveLock.Proofs.Acceptance
import CurveLock.Proofs.Curve.StoredKey
import CurveLock.Proofs.Steady

/-!
# Ciphers and their stored keys

A cipher is restored from exactly the byte strings that store a key, and is then stored as the same
byte string again.  A new cipher is made from every number that is drawn, and every key comes from
one number.  However a cipher was made, the one that is restored from its key returns the same for
all arguments (`Cipher.key_storage`).
-/

namespace CurveLock

variable {c : Curve}

namespace Cipher

/-! ### Drawing a key -/

theorem result_create {s : Scratch} {x : Key c} (h : s.Supplies x) :
    ∃ cipher, (create c).result s = .ok cipher ∧ cipher.key = x := by
  obtain ⟨s₁, hs₁⟩ := c.exists_run_randomScalar h
  obtain ⟨r, hr⟩ := exists_inverse x
  refine ⟨⟨x, r⟩, ?_, rfl⟩
  rw [create, Metered.result_bind hs₁, Metered.result_bind (run_ofKey x hr s₁)]
  rfl

/-- **The key of a new cipher is the one that is supplied.** -/
theorem exists_result_create_iff {s : Scratch} {x : Key c} :
    (∃ cipher, (create c).result s = .ok cipher ∧ cipher.key = x) ↔ s.Supplies x := by
  refine ⟨?_, result_create⟩
  rintro ⟨cipher, hcipher, rfl⟩
  by_cases hs : s.supply = []
  · rw [create, Metered.result_bind_error (c.run_randomScalar_nil hs)] at hcipher
    cases hcipher
  · obtain ⟨y, hy⟩ := c.exists_supplies hs
    obtain ⟨cipher', hcipher', rfl⟩ := result_create hy
    obtain rfl := Except.ok.inj (hcipher.symm.trans hcipher')
    exact hy

/-! ### Restoring a cipher -/

/-- A cipher is restored by reading its key first. -/
theorem restore_eq (d : Datum) : restore c d = do
    let x ← c.storedKey d
    let cipher ← ofKey c x.val
    Metered.record (.cipherRestored c)
    return cipher := by
  rw [restore, Curve.storedKey]
  rcases c.decodeScalar d with f | k
  · rfl
  · rcases c.key_cases k with ⟨x, hx⟩ | hrefused
    · obtain rfl : k = x.val := by exact_mod_cast hx
      change (ofKey c x.val >>= _ : Metered (Cipher c)) = liftM (c.key x.val) >>= _
      rw [c.key_val]
      rfl
    · change (ofKey c k >>= _ : Metered (Cipher c)) = liftM (c.key k) >>= _
      rw [ofKey, hrefused]
      rfl

theorem result_restore {d : Datum} {x : Key c} (h : c.storedKey d = .ok x) {r : ℕ}
    (hr : inverse? x.val c.order = some r) (s : Scratch) :
    (restore c d).result s = .ok ⟨x, r⟩ := by
  rw [restore_eq, h, Metered.result_bind (Metered.run_lift_ok x s),
    Metered.result_bind (run_ofKey x hr s)]
  rfl

theorem result_restore_of_refused {d : Datum} {f : Rejection}
    (h : c.storedKey d = .error (.refused f)) (s : Scratch) :
    (restore c d).result s = .error (.refused f) := by
  rw [restore_eq, h, Metered.result_bind_error (Metered.run_lift_error _ s)]

theorem keyBytes_eq (cipher : Cipher c) :
    cipher.keyBytes = .ok (Bytes.ofNatWidth c.scalarWidth cipher.key.val) :=
  c.encodeScalar_key cipher.key

/-- **A cipher is restored from what stores a key**, and is stored as it was. -/
theorem guarded_restore (d : Datum) (s : Scratch) :
    Guarded ((restore c d).result s) (∃ b, d.bytes? = some b ∧ c.SpellsKey b)
      fun cipher => ∃ b, d.bytes? = some b ∧ cipher.keyBytes = .ok b := by
  rw [← c.exists_storedKey_iff]
  rcases c.storedKey_cases d with ⟨x, hx⟩ | ⟨f, hf⟩
  · obtain ⟨r, hr⟩ := exists_inverse x
    exact Or.inl ⟨⟨x, hx⟩, ⟨x, r⟩, result_restore hx hr s, _, c.storedKey_eq_ok_iff.1 hx,
      keyBytes_eq ⟨x, r⟩⟩
  · refine Or.inr ⟨?_, f, result_restore_of_refused hf s⟩
    rintro ⟨x, hx⟩
    cases hf.symm.trans hx

/-- **The cipher that is restored from its key is the cipher.** -/
theorem result_restore_keyBytes {cipher : Cipher c} (made : cipher.Made) {b : Bytes}
    (hb : cipher.keyBytes = .ok b) {d : Datum} (hd : d.bytes? = some b) (s : Scratch) :
    (restore c d).result s = .ok cipher := by
  rw [keyBytes_eq] at hb
  obtain rfl := Except.ok.inj hb
  exact result_restore (c.storedKey_eq_ok_iff.2 hd) made.inverse_eq s

/-- **The inverse lies in the range of keys.** -/
theorem Made.inverse_mem {cipher : Cipher c} (made : cipher.Made) :
    1 ≤ cipher.inverse ∧ cipher.inverse ≤ c.order - 1 := by
  obtain ⟨hlt, hmul⟩ := inverse?_eq_some_iff.1 made.inverse_eq
  have hne : cipher.inverse ≠ 0 := by
    intro h0
    rw [h0, mul_zero] at hmul
    exact c.prime_order.not_dvd_one ((Nat.modEq_iff_dvd' zero_le_one).1 hmul)
  omega

/-! ### The law -/

/-- The two ciphers return the same for every argument, from whatever scratches. -/
def Agrees (cipher cipher' : Cipher c) : Prop :=
  ∀ (d : Datum) (s s' : Scratch),
    (cipher.encrypt d).result s = (cipher'.encrypt d).result s' ∧
    (cipher.reEncrypt d).result s = (cipher'.reEncrypt d).result s' ∧
    (cipher.decrypt d).result s = (cipher'.decrypt d).result s' ∧
    (cipher.reEncryptPair d).result s = (cipher'.reEncryptPair d).result s'

theorem agrees_self (cipher : Cipher c) : cipher.Agrees cipher :=
  fun d s s' => ⟨cipher.steady_encrypt d s s', cipher.steady_reEncrypt d s s',
    cipher.steady_decrypt d s s', cipher.steady_reEncryptPair d s s'⟩

/-- **Keys are accepted exactly, and the stored key is the whole cipher.**  A cipher is restored
from the byte strings that store a key and keeps the one it is restored from; everything else is
refused.  A new cipher is made from whatever is drawn, and each key from exactly one number in `[0,
n - 1)`.  Of every cipher, however it was made, the inverse is one modulo the order and lies in the
range of keys, and what is restored from its key returns the same as it does. -/
theorem key_storage (c : Curve) :
    (∀ (d : Datum) (s : Scratch),
      Guarded ((restore c d).result s) (∃ b, d.bytes? = some b ∧ c.SpellsKey b)
        fun cipher => ∃ b, d.bytes? = some b ∧ cipher.keyBytes = .ok b) ∧
    (∀ s : Scratch, s.supply ≠ [] → ∃ cipher, (create c).result s = .ok cipher) ∧
    (∀ x : Key c, ∃! v : ℤ, (0 ≤ v ∧ v < c.order - 1) ∧
      ∀ (s : Scratch) (rest : List ℤ), s.supply = v :: rest →
        ∃ cipher, (create c).result s = .ok cipher ∧ cipher.key = x) ∧
    ∀ cipher : Cipher c, cipher.Made →
      (1 ≤ cipher.inverse ∧ cipher.inverse ≤ c.order - 1) ∧
      cipher.key.val * cipher.inverse ≡ 1 [MOD c.order] ∧
      ∃ b, cipher.keyBytes = .ok b ∧ ∀ d, d.bytes? = some b → ∀ s,
        ∃ restored, (restore c d).result s = .ok restored ∧ restored.Agrees cipher := by
  refine ⟨guarded_restore, fun s hs => ?_, fun x => ?_, fun cipher made => ?_⟩
  · obtain ⟨x, hx⟩ := c.exists_supplies hs
    obtain ⟨cipher, hcipher, -⟩ := result_create hx
    exact ⟨cipher, hcipher⟩
  · simp only [exists_result_create_iff]
    exact c.existsUnique_draw x
  · refine ⟨made.inverse_mem, (inverse?_eq_some_iff.1 made.inverse_eq).2, _, keyBytes_eq cipher,
      fun d hd s => ?_⟩
    exact ⟨cipher, result_restore_keyBytes made (keyBytes_eq cipher) hd s, cipher.agrees_self⟩

theorem key_storage_three :
    ∃ (cipher restored created : Cipher .secp192r1) (b : Bytes), cipher.Made ∧
      cipher.key.val = 3 ∧ cipher.key.val * cipher.inverse ≡ 1 [MOD Curve.secp192r1.order] ∧
      cipher.keyBytes = .ok b ∧ (restore .secp192r1 (.byteArray b)).result {} = .ok restored ∧
      restored.Agrees cipher ∧ (create .secp192r1).result { supply := [-1] } = .ok created := by
  obtain ⟨cipher, made, hkey⟩ :=
    exists_made (c := .secp192r1) ⟨3, by decide, by decide +kernel⟩
  obtain ⟨-, hcreate, -, hmade⟩ := key_storage .secp192r1
  obtain ⟨-, hmul, b, hb, hrestore⟩ := hmade cipher made
  obtain ⟨restored, hrestored, hagrees⟩ := hrestore (.byteArray b) rfl {}
  obtain ⟨created, hcreated⟩ := hcreate { supply := [-1] } (List.cons_ne_nil _ _)
  exact ⟨cipher, restored, created, b, made, by rw [hkey], hmul, hb, hrestored, hagrees, hcreated⟩

end Cipher

end CurveLock

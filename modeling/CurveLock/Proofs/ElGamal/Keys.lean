import CurveLock.ElGamal
import CurveLock.Proofs.Cipher.Keys
import CurveLock.Proofs.Curve.Compressed
import CurveLock.Proofs.Curve.Scalar

/-!
# The two keys of an ElGamal user belong together

However the keys are made, the public key is a finite point (`ElGamal.Made.exists_publicKey`), and
where there is a private key it is that multiple of the base point (`ElGamal.Made.publicKey_eq`).
Every key in `[1, n - 1]` is the private key of a user (`ElGamal.exists_made`).
-/

namespace CurveLock

namespace Curve

variable (c : Curve)

/-- **Every finite point is the multiple of the base point by one key.** -/
theorem existsUnique_key {A : c.equation.Group} (hA : A ≠ 0) :
    ∃! r : Key c, (r.val : ZMod c.order) • c.basePoint = A :=
  c.existsUnique_key_smul c.basePoint_ne_zero hA

end Curve

namespace ElGamal

variable {c : Curve}

/-! ### Keys that are made -/

/-- Keys that one of the operations has returned. -/
inductive Made : ElGamal c → Prop
  | create {keys : ElGamal c} {s s' : Scratch} (h : (create c).run s = .ok keys s') : Made keys
  | ofPublic {keys : ElGamal c} {s s' : Scratch} (publicKey : Datum)
      (h : (ofPublic c publicKey).run s = .ok keys s') : Made keys
  | ofPair {keys : ElGamal c} {s s' : Scratch} (publicKey privateKey : Datum)
      (h : (ofPair c publicKey privateKey).run s = .ok keys s') : Made keys

theorem exists_of_run_create {keys : ElGamal c} {s s' : Scratch}
    (h : (ElGamal.create c).run s = .ok keys s') :
    ∃ x : Key c, keys = ⟨c.smul x.val c.generator, some x⟩ := by
  simp only [ElGamal.create, Metered.run_bind_eq_ok_iff] at h
  obtain ⟨x, s₁, -, -, s₂, -, Y, s₃, hY, h⟩ := h
  rw [Curve.run_mul] at hY
  injection hY with hY
  injection h with h
  exact ⟨x, by rw [← h, ← hY]⟩

theorem exists_of_run_ofPublic {keys : ElGamal c} {d : Datum} {s s' : Scratch}
    (h : (ElGamal.ofPublic c d).run s = .ok keys s') :
    ∃ Y, c.decodePoint d = .ok Y ∧ keys = ⟨Y, none⟩ := by
  simp only [ElGamal.ofPublic, Metered.run_bind_eq_ok_iff] at h
  obtain ⟨Y, s₁, hY, h⟩ := h
  injection h with h
  exact ⟨Y, (Metered.run_lift_eq_ok_iff.1 hY).1, h.symm⟩

theorem exists_of_run_ofPair {keys : ElGamal c} {p k : Datum} {s s' : Scratch}
    (h : (ElGamal.ofPair c p k).run s = .ok keys s') :
    ∃ x : Key c, keys = ⟨c.smul x.val c.generator, some x⟩ := by
  simp only [ElGamal.ofPair, Metered.run_bind_eq_ok_iff] at h
  obtain ⟨Y, s₁, -, n, s₂, -, x, s₃, -, Z, s₄, hZ, h⟩ := h
  rw [Curve.run_mul] at hZ
  injection hZ with hZ
  split_ifs at h with hne
  · cases h
  · injection h with h
    exact ⟨x, by rw [← h, hZ, not_ne_iff.1 hne]⟩

/-- **The public key is the multiple of the base point by the private key.** -/
theorem Made.publicKey_eq {keys : ElGamal c} (made : keys.Made) {x : Key c}
    (hx : keys.privateKey = some x) : keys.publicKey = c.smul x.val c.generator := by
  cases made with
  | create h =>
    obtain ⟨x', rfl⟩ := exists_of_run_create h
    obtain rfl := Option.some.inj hx
    rfl
  | ofPublic d h =>
    obtain ⟨Y, -, rfl⟩ := exists_of_run_ofPublic h
    cases hx
  | ofPair p k h =>
    obtain ⟨x', rfl⟩ := exists_of_run_ofPair h
    obtain rfl := Option.some.inj hx
    rfl

theorem smul_generator_key (x : Key c) : c.smul x.val c.generator =
    c.equation.coordinates ((x.val : ZMod c.order) • c.basePoint) := by
  rw [c.smul_generator, Int.cast_natCast]

theorem smul_basePoint_ne_zero (x : Key c) : (x.val : ZMod c.order) • c.basePoint ≠ 0 :=
  smul_ne_zero (Cipher.cast_key_ne_zero x) c.basePoint_ne_zero

/-- **The public key is a finite point.** -/
theorem Made.exists_publicKey {keys : ElGamal c} (made : keys.Made) :
    ∃ Y : c.equation.Group, Y ≠ 0 ∧ keys.publicKey = c.equation.coordinates Y := by
  cases made with
  | create h =>
    obtain ⟨x, rfl⟩ := exists_of_run_create h
    exact ⟨_, smul_basePoint_ne_zero x, smul_generator_key x⟩
  | ofPublic d h =>
    obtain ⟨Y, hY, rfl⟩ := exists_of_run_ofPublic h
    obtain ⟨A, hA, hcoordinates, -⟩ := c.exists_of_decodePoint hY
    exact ⟨A, hA, hcoordinates⟩
  | ofPair p k h =>
    obtain ⟨x, rfl⟩ := exists_of_run_ofPair h
    exact ⟨_, smul_basePoint_ne_zero x, smul_generator_key x⟩

/-- **A new user has the private key that the scratch supplies.** -/
theorem exists_run_create {x : Key c} {s : Scratch} (hs : s.Supplies x) :
    ∃ s', (create c).run s = .ok ⟨c.smul x.val c.generator, some x⟩ s' := by
  obtain ⟨s₁, hs₁⟩ := c.exists_run_randomScalar hs
  have hkey : c.newKey.run s = .ok x s₁ := by
    rw [Curve.newKey, EStateM.run_bind, hs₁]
    simp only [c.key_val]
    rfl
  rw [create, EStateM.run_bind, hkey]
  exact ⟨_, rfl⟩

/-- **Every integer in `[1, n - 1]` is the private key of a user.** -/
theorem exists_made (x : Key c) :
    ∃ keys : ElGamal c, keys.Made ∧ keys.privateKey = some x := by
  obtain ⟨s, hs⟩ := c.exists_scratch_supplies x
  obtain ⟨s', hs'⟩ := exists_run_create hs
  exact ⟨_, .create hs', rfl⟩

end ElGamal

end CurveLock

import CurveLock.Cipher
import CurveLock.Proofs.Curve.Order
import CurveLock.Proofs.Datum
import CurveLock.Proofs.Number.Residue
import CurveLock.Proofs.Scratch

/-!
# Ciphers are made with the inverse of their key

However a cipher is made, its key lies in `[1, n - 1]` and what it keeps besides is the inverse of
the key modulo the order `n` (`Cipher.Made.cast_inverse`).  Every such key has a cipher
(`Cipher.exists_made`), and of two finite points one is the multiple of the other by exactly one key
(`Curve.existsUnique_key_smul`).
-/

namespace CurveLock

namespace Curve

variable (c : Curve)

theorem key_val (key : Key c) : c.key key.val = .ok key := by
  rw [Curve.key]
  simp only [Int.toNat_natCast]
  rw [dif_pos ⟨key.pos, key.lt_order⟩]

theorem key_eq_ok_iff {k : ℤ} {key : Key c} : c.key k = .ok key ↔ k = key.val := by
  constructor
  · intro h
    rw [Curve.key] at h
    split_ifs at h with hrange
    obtain rfl := Except.ok.inj h
    exact (Int.toNat_of_nonneg (by omega)).symm
  · rintro rfl
    exact c.key_val key

/-! ### Keys as residues -/

/-- Every residue other than zero is that of a key. -/
theorem exists_key_cast_eq {k : ZMod c.order} (hk : k ≠ 0) :
    ∃ r : Key c, (r.val : ZMod c.order) = k :=
  ⟨⟨k.val, Nat.pos_of_ne_zero (mt (ZMod.val_eq_zero k).1 hk), ZMod.val_lt k⟩,
    ZMod.natCast_zmod_val k⟩

theorem key_cast_injective : Function.Injective fun r : Key c => (r.val : ZMod c.order) := by
  rintro ⟨m, hm, hm'⟩ ⟨n, hn, hn'⟩ h
  have hval := congrArg ZMod.val h
  simp only [ZMod.val_natCast_of_lt hm', ZMod.val_natCast_of_lt hn'] at hval
  subst hval
  rfl

/-- **Of two finite points one is the multiple of the other by exactly one key.** -/
theorem existsUnique_key_smul {A B : c.equation.Group} (hA : A ≠ 0) (hB : B ≠ 0) :
    ∃! r : Key c, (r.val : ZMod c.order) • A = B := by
  obtain ⟨hinjective, hsurjective⟩ := c.smul_left_bijective hA
  obtain ⟨k, hk⟩ := hsurjective B
  have hk0 : k ≠ 0 := by
    rintro rfl
    exact hB (hk.symm.trans (zero_smul (ZMod c.order) A))
  obtain ⟨r, rfl⟩ := c.exists_key_cast_eq hk0
  refine ⟨r, hk, fun r' hr' => ?_⟩
  exact c.key_cast_injective (hinjective (hr'.trans hk.symm))

end Curve

namespace Cipher

variable {c : Curve}

/-- A cipher that one of the operations has returned. -/
inductive Made : Cipher c → Prop
  | create {cipher : Cipher c} {s s' : Scratch} (h : (create c).run s = .ok cipher s') : Made cipher
  | restore {cipher : Cipher c} {s s' : Scratch} (key : Datum)
      (h : (restore c key).run s = .ok cipher s') : Made cipher
  | ofDatum {cipher : Cipher c} {s s' : Scratch} (key : Datum)
      (h : (ofDatum c key).run s = .ok cipher s') : Made cipher

theorem run_inverseMod (key : Key c) {r : ℕ} (hr : inverse? key.val c.order = some r)
    (s : Scratch) :
    (Metered.inverseMod key.val c.order).run s =
      .ok (r : ℤ) { s with opCount := s.opCount + 1 } := by
  rw [Metered.inverseMod, Metered.inverseModAs, EStateM.run_bind, Metered.run_tick]
  simp only [Residue.inverse?_natCast hr]
  rfl

/-- Making a cipher from a key in range takes one step and does not fail. -/
theorem run_ofKey (key : Key c) {r : ℕ} (hr : inverse? key.val c.order = some r) (s : Scratch) :
    (ofKey c key.val).run s = .ok ⟨key, r⟩ { s with opCount := s.opCount + 1 } := by
  rw [ofKey, c.key_val, EStateM.run_bind, Metered.run_lift_ok]
  simp only [EStateM.run_bind, run_inverseMod key hr]
  rfl

theorem not_order_dvd_key (key : Key c) : ¬ c.order ∣ key.val :=
  fun hdvd => absurd (Nat.le_of_dvd key.pos hdvd) (not_le.2 key.lt_order)

theorem exists_inverse (key : Key c) : ∃ r, inverse? key.val c.order = some r := by
  have hcop : c.order.Coprime key.val :=
    (Nat.Prime.coprime_iff_not_dvd c.prime_order).2 (not_order_dvd_key key)
  obtain ⟨r, hr, -⟩ := exists_inverse?_eq_some c.prime_order.pos hcop
  exact ⟨r, hr⟩

/-- A cipher that was made from an integer keeps the inverse of its key. -/
theorem inverse_of_run_ofKey {k : ℤ} {cipher : Cipher c} {s s' : Scratch}
    (h : (ofKey c k).run s = .ok cipher s') :
    inverse? cipher.key.val c.order = some cipher.inverse := by
  have hrun := h
  rw [ofKey, Metered.run_bind_eq_ok_iff] at hrun
  obtain ⟨key, s₁, hkey, -⟩ := hrun
  obtain rfl := c.key_eq_ok_iff.1 (Metered.run_lift_eq_ok_iff.1 hkey).1
  obtain ⟨r, hr⟩ := exists_inverse key
  rw [run_ofKey key hr] at h
  injection h with h
  rw [← h, hr]

theorem Made.inverse_eq {cipher : Cipher c} (h : cipher.Made) :
    inverse? cipher.key.val c.order = some cipher.inverse := by
  cases h with
  | create h =>
    simp only [Cipher.create, Metered.run_bind_eq_ok_iff] at h
    obtain ⟨k, s₁, -, cipher', s₂, hmade, -, s₃, -, h⟩ := h
    injection h with h
    rw [← h]
    exact inverse_of_run_ofKey hmade
  | restore key h =>
    simp only [Cipher.restore, Metered.run_bind_eq_ok_iff] at h
    obtain ⟨k, s₁, -, cipher', s₂, hmade, -, s₃, -, h⟩ := h
    injection h with h
    rw [← h]
    exact inverse_of_run_ofKey hmade
  | ofDatum key h =>
    simp only [Cipher.ofDatum, Metered.run_bind_eq_ok_iff] at h
    obtain ⟨-, s₁, -, h⟩ := h
    rcases hk : key.integer? with _ | k
    · rw [hk] at h
      cases h
    · rw [hk] at h
      exact inverse_of_run_ofKey h

/-- **What a cipher keeps besides its key is the inverse of the key.** -/
theorem Made.cast_inverse {cipher : Cipher c} (h : cipher.Made) :
    (cipher.inverse : ZMod c.order) = (cipher.key.val : ZMod c.order)⁻¹ := by
  rw [← cast_inverse?_getD, h.inverse_eq, Option.getD_some]

theorem cast_key_ne_zero (key : Key c) : (key.val : ZMod c.order) ≠ 0 := by
  rw [Ne, ZMod.natCast_eq_zero_iff]
  exact not_order_dvd_key key

/-- **Every integer in `[1, n - 1]` is the key of a cipher.** -/
theorem exists_made (key : Key c) : ∃ cipher : Cipher c, cipher.Made ∧ cipher.key = key := by
  obtain ⟨r, hr⟩ := exists_inverse key
  have hrange : (Datum.int key.val).checkKey c = .ok () := by
    have hpos := key.pos
    have hlt := key.lt_order
    rw [Datum.checkKey, Datum.isAtMost_int, Datum.isAtMost_int,
      decide_eq_false (by omega), decide_eq_false (by omega)]
    rfl
  have hrun : (ofDatum c (.int key.val)).run {} = .ok ⟨key, r⟩ { opCount := 1 } := by
    rw [ofDatum, hrange, EStateM.run_bind, Metered.run_lift_ok]
    exact run_ofKey key hr {}
  exact ⟨⟨key, r⟩, .ofDatum _ hrun, rfl⟩

end Cipher

end CurveLock

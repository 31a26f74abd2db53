import CurveLock.Cipher
import CurveLock.ElGamal
import CurveLock.Proofs.Hash.Oracle
import CurveLock.Proofs.Scratch

/-!
# Results that are the same from every scratch

Where nothing is drawn, the result of a program depends on its arguments only (`Metered.Steady`):
the steps that are counted and the events that are recorded are never read back.  So it is with
everything that a cipher does, and with decryption by an ElGamal user in any arithmetic of points.
-/

namespace CurveLock

variable {α β : Type}

namespace Metered

/-- The result is the same from every scratch. -/
def Steady (x : Metered α) : Prop := ∀ s s', x.result s = x.result s'

theorem steady_pure (a : α) : Steady (pure a) := fun _ _ => rfl

theorem steady_throw (f : Failure) : Steady (throw f : Metered α) := fun _ _ => rfl

theorem steady_tick : Steady tick := fun _ _ => rfl

theorem steady_lift (e : Except Failure α) : Steady (liftM e) := by
  intro s s'
  rw [result_lift, result_lift]

theorem Steady.bind {x : Metered α} {f : α → Metered β} (hx : Steady x)
    (hf : ∀ a, Steady (f a)) : Steady (x >>= f) := by
  intro s s'
  have hfirst := hx s s'
  rcases h : x.run s with ⟨a, s₁⟩ | ⟨e, s₁⟩
  · rcases h' : x.run s' with ⟨a', s₁'⟩ | ⟨e', s₁'⟩
    · simp only [result, h, h', Except.ok.injEq] at hfirst
      subst hfirst
      rw [result_bind h, result_bind h']
      exact hf a s₁ s₁'
    · simp only [result, h, h', reduceCtorEq] at hfirst
  · rcases h' : x.run s' with ⟨a', s₁'⟩ | ⟨e', s₁'⟩
    · simp only [result, h, h', reduceCtorEq] at hfirst
    · simp only [result, h, h', Except.error.injEq] at hfirst
      rw [result_bind_error h, result_bind_error h', hfirst]

end Metered

/-! ### Points -/

theorem Metered.steady_oracleBelow (data : Bytes) (bound : Nat) :
    (oracleBelow data bound).Steady := by
  intro s s'
  rw [result_eq_ok (run_oracleBelow data bound s), result_eq_ok (run_oracleBelow data bound s')]

namespace Curve

variable (c : Curve)

theorem steady_searchPoint (limit : Nat) : ∀ x, (c.searchPoint limit x).Steady := by
  induction limit with
  | zero => exact fun _ => Metered.steady_throw _
  | succ limit ih =>
    intro x
    rw [searchPoint]
    split_ifs
    · exact (Metered.steady_lift _).bind fun _ => Metered.steady_pure _
    · exact (Metered.steady_oracleBelow _ _).bind ih

theorem steady_hashToPoint (message : Bytes) : (c.hashToPoint message).Steady :=
  (Metered.steady_oracleBelow _ _).bind (c.steady_searchPoint c.prime)

theorem steady_mul (P : Point) (k : Int) : (c.mul P k).Steady :=
  Metered.steady_tick.bind fun _ => Metered.steady_pure _

end Curve

/-! ### Ciphers and ElGamal users -/

variable {c : Curve}

namespace Cipher

theorem steady_scale (P : Point) (k : Nat) : (scale c P k).Steady :=
  (c.steady_mul P k).bind fun _ => Metered.steady_lift _

theorem steady_encrypt (cipher : Cipher c) (m : Datum) : (cipher.encrypt m).Steady :=
  (Metered.steady_lift _).bind fun _ => (c.steady_hashToPoint _).bind fun _ => steady_scale _ _

theorem steady_reEncrypt (cipher : Cipher c) (d : Datum) : (cipher.reEncrypt d).Steady :=
  (Metered.steady_lift _).bind fun _ => steady_scale _ _

theorem steady_decrypt (cipher : Cipher c) (d : Datum) : (cipher.decrypt d).Steady :=
  (Metered.steady_lift _).bind fun _ => steady_scale _ _

theorem steady_reEncryptPair (cipher : Cipher c) (d : Datum) : (cipher.reEncryptPair d).Steady :=
  (Metered.steady_lift _).bind fun _ => (steady_scale _ _).bind fun _ =>
    (steady_scale _ _).bind fun _ => Metered.steady_pure _

end Cipher

namespace ElGamal

variable (ops : c.Arithmetic)

theorem steady_unmask (x : Key c) (C₁ C₂ : Point) : (unmask ops x C₁ C₂).Steady :=
  Metered.steady_tick.bind fun _ => Metered.steady_tick.bind fun _ => Metered.steady_pure _

theorem steady_decryptIn (keys : ElGamal c) (d : Datum) : (keys.decryptIn ops d).Steady := by
  unfold decryptIn
  split
  · exact Metered.steady_throw _
  · refine (Metered.steady_lift _).bind fun C => (steady_unmask ops _ _ _).bind fun M => ?_
    split_ifs
    · exact fun _ _ => rfl
    · exact Metered.steady_lift _

theorem steady_decrypt (keys : ElGamal c) (d : Datum) : (keys.decrypt d).Steady :=
  steady_decryptIn c.weighted keys d

end ElGamal

end CurveLock

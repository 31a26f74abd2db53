import CurveLock.FixedBase.Basic
import CurveLock.Proofs.Cipher.Steps
import CurveLock.Proofs.ElGamal.Steps
import CurveLock.Proofs.Refusal.Values

/-!
# Which operations refuse, and when

The checks of an operation come first and need no scratch; each refuses for reasons that are found
without counting (`RefusesEarly`).  What follows is never a refusal: random scalars are keys
(`Curve.proceeds_randomScalar`), and results that lie on the curve are written or are infinity
(`Curve.proceeds_encodePoint`).  Decrypting for an ElGamal user and putting a key pair together are
the exceptions (`ElGamal.cautious_decrypt`, `ElGamal.cautious_ofPair`).
-/

namespace CurveLock

variable {A late : Rejection → Prop} {c : Curve}

/-! ### Checks -/

theorem refusesEarly_encodeAt (n : Nat) (width : Int) (shown : Datum) :
    RefusesEarly (encodeAt n width shown) := by
  unfold encodeAt
  split_ifs <;> simp [Rejection.steps]

theorem refusesEarly_encodeInteger (value : Int) (width : Option Int) :
    RefusesEarly (encodeInteger value width) := by
  unfold encodeInteger
  split_ifs
  · simp [Rejection.steps]
  · split
    · simp
    · exact refusesEarly_encodeAt _ _ _

theorem Datum.refusesEarly_encode (value width : Datum) :
    RefusesEarly (value.encode width) := by
  unfold encode
  simp only [refusesOnly_bind_iff, refusesOnly_isLess, true_and]
  intro less _
  split_ifs
  · simp [Rejection.steps]
  · split
    · simp
    · simp [refusesEarly_encodeInteger]
    · simp [refusesEarly_encodeAt]

theorem Datum.refusesEarly_checkKey (key : Datum) : RefusesEarly (key.checkKey c) := by
  unfold checkKey
  simp only [refusesOnly_bind_iff, refusesOnly_isAtMost, true_and]
  intro low _
  split_ifs
  · simp [Rejection.steps]
  · simp only [refusesOnly_bind_iff, refusesOnly_isAtMost, true_and]
    intro high _
    split_ifs <;> simp [Rejection.steps]

theorem Datum.refusesEarly_plaintext (d : Datum) : RefusesEarly d.plaintext := by
  unfold plaintext
  split <;> simp [Rejection.steps]

namespace Curve

theorem refusesEarly_find (id : Datum) : RefusesEarly (Curve.find id) := by
  unfold Curve.find
  extract_lets found
  clear_value found
  split <;> simp [Rejection.steps]

theorem refusesEarly_key (k : Int) : RefusesEarly (c.key k) := by
  unfold key
  split_ifs <;> simp [Rejection.steps]

theorem refusesEarly_encodeScalar (k : Int) : RefusesEarly (c.encodeScalar k) :=
  refusesEarly_encodeInteger k (some c.scalarWidth)

theorem refusesEarly_decodeScalar (d : Datum) : RefusesEarly (c.decodeScalar d) := by
  unfold decodeScalar scalarOfBytes
  split
  · split_ifs <;> simp [Rejection.steps]
  · simp [Rejection.steps]

@[simp] theorem refusesOnly_root (v : Nat) : RefusesOnly A (c.root v) := by
  unfold root
  split <;> simp

@[simp] theorem refusesOnly_evenRoot (v : Nat) : RefusesOnly A (c.evenRoot v) := by
  simp [evenRoot]

theorem refusesEarly_pointOfBytes (b : Bytes) : RefusesEarly (c.pointOfBytes b) := by
  unfold pointOfBytes
  split
  · split_ifs
    · simp [Rejection.steps]
    · simp [Rejection.steps]
    · simp [Rejection.steps]
    · unfold liftX
      extract_lets v
      split_ifs <;> simp [Rejection.steps]
  · simp [Rejection.steps]

theorem refusesEarly_decodePoint (d : Datum) : RefusesEarly (c.decodePoint d) := by
  unfold decodePoint
  split
  · exact refusesEarly_pointOfBytes _
  · simp [Rejection.steps]

theorem refusesEarly_decodePair (d : Datum) : RefusesEarly (c.decodePair d) := by
  unfold decodePair
  split
  · simp [refusesEarly_decodePoint]
  · simp [Rejection.steps]

theorem refusesEarly_encodePoint (P : Point) : RefusesEarly (c.encodePoint P) := by
  cases P with
  | infinity => simp [encodePoint]
  | affine x y => simp [encodePoint, refusesEarly_encodeInteger]

end Curve

theorem Datum.refusesOnly_isSquare (v : Datum) : RefusesOnly A (v.isSquare c) := by
  unfold isSquare
  split
  · simp
  · split <;> simp
  · simp [noDigits_ne_refused]

theorem Datum.refusesOnly_evenRoot (v : Datum) : RefusesOnly A (v.evenRoot c) := by
  unfold evenRoot
  simp only [refusesOnly_bind_iff, refusesOnly_isLess, true_and]
  intro negative _ tooLarge _
  split
  · refine refusesOnly_bind_iff.2 ⟨by simp, fun _ h => ?_⟩
    cases h
  · split
    · simp
    · simp
    · split
      · split_ifs <;> simp
      · simp
    · simp

/-! ### Counted arithmetic -/

namespace Metered

theorem proceeds_sha256 (data : Bytes) : Proceeds (sha256 data) fun _ => True :=
  proceeds_tick_bind (proceeds_pure trivial)

theorem proceeds_oracleBelow (data : Bytes) (bound : Nat) :
    Proceeds (oracleBelow data bound) fun _ => True :=
  fun s => .inl ⟨_, _, run_oracleBelow data bound s, trivial⟩

theorem cautious_oracle (data bound : Datum) : Cautious late (oracle data bound) fun _ => True := by
  refine cautious_lift_bind (Datum.refusesOnly_isAtMost _ _) fun _ _ => ?_
  refine cautious_guard (by rfl) fun _ => ?_
  split
  · exact (proceeds_throw (by simp)).cautious
  · exact cautious_lift_bind (Datum.refusesOnly_suffix _) fun b _ =>
      (proceeds_oracleBelow b _).cautious

theorem proceeds_mulMod (a b m : Int) : Proceeds (mulMod a b m) fun _ => True :=
  proceeds_tick_bind (proceeds_check (by simp) fun _ => proceeds_pure trivial)

theorem proceeds_powMod (b e m : Int) : Proceeds (powMod b e m) fun _ => True := by
  refine proceeds_tick_bind ?_
  split
  · exact proceeds_pure trivial
  · exact proceeds_throw (by simp)

theorem proceeds_inverseModAs (v m : Int) (shown : Datum) :
    Proceeds (inverseModAs v m shown) fun _ => True := by
  refine proceeds_tick_bind ?_
  split
  · exact proceeds_pure trivial
  · exact proceeds_throw (by simp)

theorem cautious_randomBelow (bound : Int) : Cautious late (randomBelow bound) fun _ => True := by
  unfold randomBelow
  refine cautious_guard (by rfl) fun _ => Proceeds.cautious ?_
  exact proceeds_tick_bind ((proceeds_draw _).bind fun _ _ => proceeds_pure trivial)

theorem cautious_randomBetween (low high : Int) :
    Cautious late (randomBetween low high) fun _ => True := by
  unfold randomBetween
  exact cautious_guard (by rfl) fun _ => (cautious_randomBelow _).returning _

end Metered

namespace Datum

theorem proceeds_mulMod (a b modulus : Datum) :
    (a.mulMod b modulus).Proceeds fun _ => True := by
  unfold mulMod
  split
  · exact (Metered.proceeds_mulMod _ _ _).bind fun _ _ => Metered.proceeds_pure trivial
  · exact Metered.proceeds_tick_bind
      (Metered.proceeds_lift (refusesOnly_residue _ _ _) fun _ _ => trivial)

theorem proceeds_powMod (base exponent modulus : Datum) :
    (base.powMod exponent modulus).Proceeds fun _ => True := by
  unfold powMod
  split
  · exact Metered.proceeds_powMod _ _ _
  · refine Metered.proceeds_tick_bind ?_
    split
    · exact Metered.proceeds_lift (refusesOnly_plainPower _ _) fun _ _ => trivial
    · exact Metered.proceeds_throw (by simp)

theorem proceeds_inverseMod (value modulus : Datum) :
    (value.inverseMod modulus).Proceeds fun _ => True := by
  unfold inverseMod
  split
  · exact Metered.proceeds_inverseModAs _ _ _
  · refine Metered.proceeds_tick_bind ?_
    split
    · exact Metered.proceeds_lift (refusesOnly_plainPower _ _) fun _ _ => trivial
    · exact Metered.proceeds_throw (by simp)

/-- A bound that is no integer has a number drawn, and fails then. -/
theorem proceeds_drawnFraction :
    (do Metered.tick; let _ ← Metered.draw 1; throw .wrongType : Metered Int).Proceeds
      fun _ => True :=
  Metered.proceeds_tick_bind ((Metered.proceeds_draw 1).bind fun _ _ =>
    Metered.proceeds_throw (by simp))

theorem cautious_randomBelow (bound : Datum) : bound.randomBelow.Cautious late fun _ => True := by
  refine Metered.cautious_lift_bind (refusesOnly_isAtMost _ _) fun _ _ => ?_
  refine Metered.cautious_guard (by rfl) fun _ => ?_
  split
  · exact Metered.cautious_randomBelow _
  · exact proceeds_drawnFraction.cautious

theorem cautious_randomBetween (low high : Datum) :
    (low.randomBetween high).Cautious late fun _ => True := by
  refine Metered.cautious_lift_bind (refusesOnly_isAtMost _ _) fun _ _ => ?_
  refine Metered.cautious_guard (by rfl) fun _ => ?_
  split
  · exact Metered.cautious_randomBetween _ _
  · refine Metered.cautious_check (by simp) fun _ => ?_
    refine Metered.cautious_lift_bind (refusesOnly_checkRange _) fun _ _ => ?_
    refine Metered.cautious_lift_bind (refusesOnly_checkRange _) fun _ _ => ?_
    exact Metered.cautious_guard (by rfl) fun _ => proceeds_drawnFraction.cautious

end Datum

/-! ### Points -/

namespace Curve

/-- A random scalar is a key. -/
theorem proceeds_randomScalar : c.randomScalar.Proceeds fun k => ∃ key : Key c, k = key.val := by
  intro s
  by_cases h : s.supply = []
  · exact .inr ⟨_, _, c.run_randomScalar_nil h, by simp⟩
  · obtain ⟨r, hr⟩ := c.exists_supplies h
    obtain ⟨s', hs'⟩ := c.exists_run_randomScalar hr
    exact .inl ⟨_, s', hs', r, rfl⟩

/-- What lies on the curve is written, or is infinity. -/
theorem refusesOnly_encodePoint (B : c.equation.Group) :
    RefusesOnly A (c.encodePoint (c.equation.coordinates B)) := by
  by_cases hB : B = 0
  · rw [hB, c.equation.coordinates_zero]
    simp [encodePoint]
  · obtain ⟨b, hb⟩ := c.exists_encodePoint_coordinates hB
    rw [hb]
    exact refusesOnly_ok b

theorem proceeds_encodePoint (B : c.equation.Group) :
    Metered.Proceeds (liftM (c.encodePoint (c.equation.coordinates B))) c.Writes :=
  Metered.proceeds_lift (c.refusesOnly_encodePoint B) fun _ => c.writes_of_encodePoint

theorem proceeds_hashToPoint (m : Bytes) :
    (c.hashToPoint m).Proceeds fun P => ∃ B : c.equation.Group, P = c.equation.coordinates B := by
  intro s
  by_cases h : ∃ i, c.isSquare (c.rightSide (c.candidate m i)) = true
  · obtain ⟨i, hi⟩ := h
    obtain ⟨t, ht⟩ := exists_firstHit hi
    obtain ⟨y, hlift, hcontains, -⟩ := c.exists_liftX (c.candidate_lt m t) ht.hit false
    obtain ⟨B, hB⟩ := c.equation.contains_iff.1 hcontains
    exact .inl ⟨_, _, c.run_hashToPoint_of_firstHit ht hlift s, B, hB.symm⟩
  · have hmiss : ∀ i, c.isSquare (c.rightSide (c.candidate m i)) = false :=
      fun i => Bool.eq_false_iff.2 fun hi => h ⟨i, hi⟩
    obtain ⟨s', hend⟩ := c.run_searchPoint_of_miss hmiss c.prime 0
      { s with opCount := s.opCount + Oracle.blockCount c.prime }
    exact .inr ⟨_, s', (c.run_hashToPoint m s).trans hend, by simp⟩

theorem proceeds_mul (P : Point) (k : Int) : (c.mul P k).Proceeds fun Q => Q = c.smul k P :=
  fun s => .inl ⟨_, _, c.run_mul P k s, rfl⟩

theorem proceeds_sum (P Q : Point) : (c.sum P Q).Proceeds fun R => R = c.add P Q :=
  fun s => .inl ⟨_, _, c.run_sum P Q s, rfl⟩

end Curve

namespace Datum

theorem proceeds_mul (P : PlacedPoint) (k : Int) : (P.mul k).Proceeds fun _ => True :=
  Metered.proceeds_tick_bind (Metered.proceeds_pure trivial)

theorem proceeds_sumOfPoints (P Q : PlacedPoint) :
    (PlacedPoint.sum c P Q).Proceeds fun _ => True := by
  refine Metered.proceeds_tick_bind ?_
  split
  · exact Metered.proceeds_pure trivial
  · exact Metered.proceeds_throw (by simp)

theorem brokenBy_ne_refused {f : Failure} (b : Breakdown) (h : ∀ r, f ≠ .refused r)
    (r : Rejection) : brokenBy b f ≠ .refused r := by
  unfold brokenBy
  split
  · simp
  · simp
  · exact h r

theorem proceeds_failedStep {α : Type} {f : Failure} (h : ∀ r, f ≠ .refused r) :
    (failedStep f : Metered α).Proceeds fun _ => True :=
  Metered.proceeds_tick_bind (Metered.proceeds_throw h)

theorem proceeds_plainStep (b : Breakdown) {e : Except Failure (Option Datum)}
    (h : Unrefused e) : (plainStep b e).Proceeds fun _ => True := by
  refine Metered.proceeds_tick_bind ?_
  split
  · exact Metered.proceeds_pure trivial
  · exact Metered.proceeds_throw (by simp)
  · exact Metered.proceeds_throw (brokenBy_ne_refused b (h.ne_refused rfl))

theorem proceeds_multipleOfPoint (P : PlacedPoint) (atBase : Bool) (k : Datum) :
    (multipleOfPoint c P atBase k).Proceeds fun _ => True := by
  unfold multipleOfPoint
  split
  · exact proceeds_mul _ _
  · split
    · exact proceeds_mul _ _
    · rename_i f hf
      exact proceeds_failedStep
        (brokenBy_ne_refused _ (Unrefused.ne_refused (refusesOnly_multiplier _ _ _) hf))

theorem proceeds_pointOf {x : Metered PlacedPoint} (hx : x.Proceeds fun _ => True) :
    (do return point (← x)).Proceeds fun _ => True :=
  hx.bind fun _ _ => Metered.proceeds_pure trivial

theorem proceeds_multipleOfBase (d : Curve) (k : Datum) :
    (multipleOfBase c d k).Proceeds fun _ => True := by
  unfold multipleOfBase
  split_ifs
  · exact Metered.proceeds_tick_bind (Metered.proceeds_pure trivial)
  · exact proceeds_pointOf (proceeds_multipleOfPoint _ _ _)

theorem proceeds_multiple (p k : Datum) : (multiple c p k).Proceeds fun _ => True := by
  unfold multiple
  split
  all_goals first
    | exact proceeds_pointOf (proceeds_multipleOfPoint _ _ _)
    | exact proceeds_multipleOfBase _ _
    | exact proceeds_failedStep (by simp)
    | exact proceeds_plainStep _ (refusesOnly_times _ _)

theorem proceeds_sum (p q : Datum) : (sum c p q).Proceeds fun _ => True := by
  unfold sum
  split
  · exact Metered.proceeds_tick_bind (Metered.proceeds_pure trivial)
  · exact Metered.proceeds_tick_bind (Metered.proceeds_pure trivial)
  · split
    · exact proceeds_pointOf (proceeds_sumOfPoints _ _)
    · exact proceeds_failedStep (by simp)
    · exact proceeds_failedStep (by simp)
    · exact proceeds_failedStep (by simp)
    · exact proceeds_failedStep (by simp)
    · exact proceeds_plainStep _ (refusesOnly_plus _ _)

end Datum

/-! ### Ciphers -/

namespace Cipher

theorem proceeds_scale (B : c.equation.Group) (k : Nat) :
    (scale c (c.equation.coordinates B) k).Proceeds c.Writes := by
  refine (c.proceeds_mul _ _).bind fun Q hQ => ?_
  rw [hQ, c.smul_coordinates]
  exact c.proceeds_encodePoint _

theorem cautious_encrypt (cipher : Cipher c) (m : Datum) :
    (cipher.encrypt m).Cautious late c.Writes := by
  refine Metered.cautious_lift_bind m.refusesEarly_plaintext fun message _ => ?_
  refine Metered.Proceeds.cautious ((c.proceeds_hashToPoint message).bind ?_)
  rintro _ ⟨B, rfl⟩
  exact proceeds_scale B _

/-- Reading a point and multiplying it. -/
theorem cautious_decodePoint_scale (d : Datum) (k : Nat) :
    (do scale c (← c.decodePoint d) k : Metered Bytes).Cautious late c.Writes := by
  refine Metered.cautious_lift_bind (c.refusesEarly_decodePoint d) fun P hP => ?_
  obtain ⟨B, -, rfl, -⟩ := c.exists_of_decodePoint hP
  exact (proceeds_scale B k).cautious

theorem cautious_reEncryptPair (cipher : Cipher c) (d : Datum) :
    (cipher.reEncryptPair d).Cautious late fun pq => c.Writes pq.1 ∧ c.Writes pq.2 := by
  refine Metered.cautious_lift_bind (c.refusesEarly_decodePair d) fun PQ hPQ => ?_
  obtain ⟨P, Q⟩ := PQ
  obtain ⟨B, C, -, -, rfl, rfl, -⟩ := c.exists_of_decodePair hPQ
  refine Metered.Proceeds.cautious ?_
  exact (proceeds_scale B _).bind fun _ hp => (proceeds_scale C _).bind fun _ hq =>
    Metered.proceeds_pure ⟨hp, hq⟩

theorem proceeds_ofKey (key : Key c) : (ofKey c key.val).Proceeds fun _ => True := by
  obtain ⟨r, hr⟩ := exists_inverse key
  exact fun s => .inl ⟨_, _, run_ofKey key hr s, trivial⟩

theorem refusesEarly_keyBytes (cipher : Cipher c) : RefusesEarly cipher.keyBytes :=
  c.refusesEarly_encodeScalar cipher.key.val

theorem cautious_ofKey (k : Int) : (ofKey c k).Cautious late fun _ => True := by
  refine Metered.cautious_lift_bind (c.refusesEarly_key k) fun key _ => ?_
  refine Metered.Proceeds.cautious ?_
  exact (Metered.proceeds_inverseModAs _ _ _).bind fun _ _ => Metered.proceeds_pure trivial

theorem cautious_ofDatum (key : Datum) : (ofDatum c key).Cautious late fun _ => True := by
  refine Metered.cautious_lift_bind key.refusesEarly_checkKey fun _ _ => ?_
  split
  · exact cautious_ofKey _
  · exact (Datum.proceeds_failedStep (by simp)).cautious

theorem proceeds_create (c : Curve) : (create c).Proceeds fun _ => True := by
  refine c.proceeds_randomScalar.bind ?_
  rintro _ ⟨key, rfl⟩
  exact (proceeds_ofKey key).bind fun _ _ =>
    (Metered.proceeds_record _).bind fun _ _ => Metered.proceeds_pure trivial

theorem cautious_restore (key : Datum) : (restore c key).Cautious late fun _ => True := by
  refine Metered.cautious_lift_bind (c.refusesEarly_decodeScalar key) fun k _ => ?_
  exact (cautious_ofKey k).bind fun _ _ =>
    (Metered.proceeds_record _).bind fun _ _ => Metered.proceeds_pure trivial

end Cipher

/-! ### ElGamal -/

namespace ElGamal

theorem proceeds_create (c : Curve) : (create c).Proceeds fun _ => True := by
  have hkey : c.newKey.Proceeds fun _ => True := by
    refine c.proceeds_randomScalar.bind ?_
    rintro _ ⟨key, rfl⟩
    rw [c.key_val]
    exact Metered.proceeds_pure trivial
  exact hkey.bind fun key _ => (Metered.proceeds_record _).bind fun _ _ =>
    (c.proceeds_mul _ _).bind fun _ _ => Metered.proceeds_pure trivial

theorem cautious_ofPublic (d : Datum) : (ofPublic c d).Cautious late fun _ => True :=
  Metered.cautious_lift_bind (c.refusesEarly_decodePoint d) fun _ _ =>
    (Metered.proceeds_pure trivial).cautious

theorem proceeds_encodePair (B C : c.equation.Group) :
    Metered.Proceeds (liftM (encodePair c (c.equation.coordinates B) (c.equation.coordinates C)))
      fun pq => c.Writes pq.1 ∧ c.Writes pq.2 := by
  refine Metered.proceeds_lift ?_ fun pq h => ?_
  · simp [encodePair, c.refusesOnly_encodePoint]
  · obtain ⟨hp, hq⟩ := encodePair_eq_ok_iff.1 h
    exact ⟨c.writes_of_encodePoint hp, c.writes_of_encodePoint hq⟩

theorem Made.cautious_encrypt {keys : ElGamal c} (made : keys.Made) (m : Datum) :
    (keys.encrypt m).Cautious late fun pq => c.Writes pq.1 ∧ c.Writes pq.2 := by
  obtain ⟨Y, -, hY⟩ := made.exists_publicKey
  refine Metered.cautious_lift_bind (c.refusesEarly_decodePoint m) fun P hP => ?_
  obtain ⟨M, -, rfl, -⟩ := c.exists_of_decodePoint hP
  refine Metered.Proceeds.cautious (c.proceeds_randomScalar.bind ?_)
  rintro _ ⟨r, rfl⟩
  refine (c.proceeds_mul _ _).bind ?_
  rintro _ rfl
  refine (c.proceeds_mul _ _).bind ?_
  rintro _ rfl
  refine (c.proceeds_sum _ _).bind ?_
  rintro _ rfl
  rw [add_mask hY, smul_generator_key]
  exact proceeds_encodePair _ _

theorem Made.proceeds_encryptIdentity {keys : ElGamal c} (made : keys.Made) :
    keys.encryptIdentity.Proceeds fun pq => c.Writes pq.1 ∧ c.Writes pq.2 := by
  obtain ⟨Y, -, hY⟩ := made.exists_publicKey
  refine c.proceeds_randomScalar.bind ?_
  rintro _ ⟨r, rfl⟩
  refine (c.proceeds_mul _ _).bind ?_
  rintro _ rfl
  refine (c.proceeds_mul _ _).bind ?_
  rintro _ rfl
  rw [hY, smul_key, smul_generator_key]
  exact proceeds_encodePair _ _

/-- Decrypting refuses after two steps where infinity is left. -/
theorem cautious_decrypt (hlate : late .decryptsToInfinity) (keys : ElGamal c) (d : Datum) :
    (keys.decrypt d).Cautious late c.Writes := by
  rcases hx : keys.privateKey with _ | x
  · rw [decrypt, decryptIn, hx]
    exact Metered.cautious_refuse (by rfl)
  · rw [decrypt, decryptIn, hx]
    refine Metered.cautious_lift_bind (c.refusesEarly_decodePair d) ?_
    rintro ⟨C₁, C₂⟩ hd
    obtain ⟨A, B, -, hB, rfl, rfl, -⟩ := c.exists_of_decodePair hd
    obtain ⟨C, hC⟩ := Curve.exists_weighted_difference x A hB
    intro s
    simp only [EStateM.run_bind, run_unmask, hC]
    -- the multiplication and the addition are counted before infinity is seen
    split_ifs
    · exact .inr ⟨_, _, rfl, by rintro r ⟨⟩; exact ⟨rfl, fun _ => hlate⟩⟩
    · exact (c.proceeds_encodePoint C).outcome _ _

/-- A stored pair is refused after one step where the public key is another point. -/
theorem cautious_ofPair (hlate : late .publicKeyMismatch) (p k : Datum) :
    (ofPair c p k).Cautious late fun _ => True := by
  refine Metered.cautious_lift_bind (c.refusesEarly_decodePoint p) fun Y _ => ?_
  refine Metered.cautious_lift_bind (c.refusesEarly_decodeScalar k) fun n _ => ?_
  refine Metered.cautious_lift_bind (c.refusesEarly_key n) fun x _ => ?_
  intro s
  simp only [EStateM.run_bind, c.run_mul]
  -- the multiplication is counted before the public key is compared
  split_ifs
  · exact .inr ⟨_, _, rfl, by rintro r ⟨⟩; exact ⟨rfl, fun _ => hlate⟩⟩
  · exact .inl ⟨_, _, rfl, trivial⟩

theorem refusesEarly_privateBytes (keys : ElGamal c) : RefusesEarly keys.privateBytes := by
  unfold privateBytes
  split
  · exact c.refusesEarly_encodeScalar _
  · simp [Rejection.steps]

end ElGamal

/-! ### Powers of a fixed base -/

namespace FixedBase

theorem proceeds_multiply (m a b : Nat) : (multiply m a b).Proceeds fun _ => True :=
  Metered.proceeds_tick_bind (Metered.proceeds_pure trivial)

theorem proceeds_raise (m b e : Nat) : (raise m b e).Proceeds fun _ => True :=
  Metered.proceeds_tick_bind (Metered.proceeds_pure trivial)

namespace Table

theorem proceeds_extendRow (m g n : Nat) :
    ∀ row last, (extendRow m g n row last).Proceeds fun _ => True := by
  induction n with
  | zero => exact fun _ _ => Metered.proceeds_pure trivial
  | succ n ih => exact fun _ _ => (proceeds_multiply _ _ _).bind fun _ _ => ih _ _

theorem proceeds_buildRows (m window n : Nat) :
    ∀ g, (buildRows m window n g).Proceeds fun _ => True := by
  induction n with
  | zero => exact fun _ => Metered.proceeds_pure trivial
  | succ n ih =>
    intro g
    exact (proceeds_extendRow _ _ _ _ _).bind fun _ _ => (proceeds_multiply _ _ _).bind
      fun _ _ => (ih _).bind fun _ _ => Metered.proceeds_pure trivial

theorem proceeds_multiplyDigits (m window : Nat) (rows : List (Array Nat)) :
    ∀ e acc, (multiplyDigits m window rows e acc).Proceeds fun _ => True := by
  induction rows with
  | nil => exact fun _ _ => Metered.proceeds_pure trivial
  | cons row rows ih =>
    intro e acc
    rw [multiplyDigits]
    split_ifs
    · exact (Metered.proceeds_pure (P := fun _ => True) trivial).bind fun _ _ => ih _ _
    · exact (proceeds_multiply _ _ _).bind fun _ _ => ih _ _

theorem proceeds_power (t : Table) (m e : Nat) : (t.power m e).Proceeds fun _ => True := by
  refine (proceeds_multiplyDigits _ _ _ _ _).bind fun p _ => ?_
  obtain ⟨acc, rest⟩ := p
  simp only
  split_ifs
  · exact Metered.proceeds_pure trivial
  · exact (Metered.proceeds_record _).bind fun _ _ => (proceeds_raise _ _ _).bind
      fun _ _ => proceeds_multiply _ _ _

end Table

theorem cautious_power (fixed : FixedBase) (exponent : Datum) :
    (fixed.power exponent).Cautious late fun _ => True := by
  unfold power
  split
  · split_ifs
    · exact Metered.cautious_refuse (by rfl)
    · refine Metered.Proceeds.cautious ?_
      unfold powerNat
      split
      · exact Table.proceeds_power _ _ _
      · exact proceeds_raise _ _ _
  · exact Metered.cautious_refuse (by rfl)

theorem proceeds_build (base modulus : Nat) (settings : Settings) :
    (build base modulus settings).Proceeds fun _ => True := by
  have hwindow : Unrefused settings.windowWidth := by simp [Settings.windowWidth]
  have hbits : Unrefused (settings.coveredBits modulus) := by
    unfold Settings.coveredBits
    split <;> simp
  unfold build
  split_ifs
  · refine (Metered.proceeds_lift hwindow fun _ _ => trivial).bind (P := fun _ => True)
      fun w _ => ?_
    refine (Metered.proceeds_lift hbits fun _ _ => trivial).bind (P := fun _ => True)
      fun bits _ => ?_
    refine Metered.Proceeds.bind (P := fun _ => True) ?_ fun table _ => ?_
    · exact (Table.proceeds_buildRows _ _ _ _).bind fun _ _ => Metered.proceeds_pure trivial
    · exact (Metered.proceeds_record _).bind fun _ _ => Metered.proceeds_pure trivial
  · exact (Metered.proceeds_record _).bind fun _ _ => Metered.proceeds_pure trivial

theorem refusesEarly_checkNumbers (base modulus : Datum) :
    RefusesEarly (checkNumbers base modulus) := by
  unfold checkNumbers
  split
  · split_ifs <;> simp [Rejection.steps]
  · simp [Rejection.steps]

theorem Settings.refusesEarly_make (useTable window tableBits : Datum) :
    RefusesEarly (make useTable window tableBits) := by
  have hwindow : RefusesEarly (checkWindow window) := by
    unfold checkWindow
    simp only [refusesOnly_bind_iff, Datum.refusesOnly_isAtMost, true_and]
    intro low _
    split
    · simp [Rejection.steps]
    · simp only [refusesOnly_bind_iff, Datum.refusesOnly_isAtMost, true_and]
      intro high _
      split_ifs <;> simp [Rejection.steps]
  have hbits : RefusesEarly (checkTableBits tableBits) := by
    unfold checkTableBits
    split
    · simp
    · simp only [refusesOnly_bind_iff, Datum.refusesOnly_isAtMost, true_and]
      intro low _
      split_ifs <;> simp [Rejection.steps]
  simp [make, hwindow, hbits]

theorem Settings.refusesEarly_ofEnvironment (env : Environment) :
    RefusesEarly (ofEnvironment env) := by
  unfold ofEnvironment
  extract_lets useTable text
  split
  · exact refusesEarly_make _ _ _
  · simp [Rejection.steps]

/-- Defaults that cannot be read stay unread. -/
theorem Defaults.get_of_error {d d' : Defaults} {f : Failure} (h : d.get = (.error f, d')) :
    Settings.ofEnvironment d.environment = .error f ∧ d' = d := by
  unfold get at h
  split at h
  · cases h
  · split at h
    · cases h
    · rename_i f' hf
      cases h
      exact ⟨hf, rfl⟩

/-- **A fixed base that is refused leaves scratch and defaults as they were.** -/
theorem Defaults.refusal_of_build {d : Defaults} {settings : Option Settings}
    {base modulus : Datum} {s s' : Scratch} {r : Rejection}
    (h : (d.build settings base modulus).1.run s = .error (.refused r) s') :
    s' = s ∧ r.steps = 0 ∧ (d.build settings base modulus).2 = d := by
  have hnumbers := refusesEarly_checkNumbers base modulus
  rcases hresult : checkNumbers base modulus with f | ⟨b, m⟩
  · simp only [build, hresult] at h ⊢
    cases h
    exact ⟨rfl, hnumbers r hresult, trivial⟩
  · rcases settings with _ | settings
    · rcases hget : d.get with ⟨f | settings, d'⟩
      · obtain ⟨henvironment, rfl⟩ := get_of_error hget
        simp only [build, hresult, hget] at h ⊢
        cases h
        exact ⟨rfl, Settings.refusesEarly_ofEnvironment _ r henvironment, trivial⟩
      · simp only [build, hresult, hget] at h
        exact absurd h ((proceeds_build b m settings).run_ne_refused s s' r)
    · simp only [build, hresult] at h
      exact absurd h ((proceeds_build b m settings).run_ne_refused s s' r)

end FixedBase

end CurveLock

import CurveLock.Proofs.Cipher.Steps

/-!
# Which messages collide

Two messages are hashed to the same point exactly when their chains of candidates meet on the way
(`Curve.candidate_eq_of_meet`, `Curve.meet_of_candidate_eq`).  There are two ways in which chains
meet: the random oracle has the same value at two different questions, or one of the messages spells
a candidate that was passed over for the other (`Curve.candidate_eq_iff`).  The second needs no
collision of the oracle (`Cipher.encrypt_collision_of_rehash`).
-/

namespace CurveLock

namespace Curve

variable {c : Curve}

/-- What the random oracle is asked for candidate `i` of a message. -/
def question (c : Curve) (m : Bytes) : ℕ → Bytes
  | 0 => m
  | i + 1 => Bytes.ofNat (c.candidate m i)

theorem value_question (m : Bytes) (i : ℕ) :
    Oracle.value (c.question m i) c.prime = c.candidate m i := by
  cases i <;> rfl

/-- **Chains that meet on the way to their hits have the same hit.** -/
theorem candidate_eq_of_meet {m m' : Bytes} {t t' : ℕ} (ht : c.FirstHit m t)
    (ht' : c.FirstHit m' t') {i j : ℕ} (hi : i ≤ t) (hj : j ≤ t')
    (h : c.candidate m i = c.candidate m' j) : c.candidate m t = c.candidate m' t' := by
  obtain ⟨k, rfl⟩ := Nat.exists_eq_add_of_le hi
  obtain ⟨k', rfl⟩ := Nat.exists_eq_add_of_le hj
  have hle : j + k' ≤ j + k := ht'.le (by rw [← c.candidate_add_eq h]; exact ht.hit)
  have hge : i + k ≤ i + k' := ht.le (by rw [c.candidate_add_eq h]; exact ht'.hit)
  obtain rfl : k = k' := by omega
  exact c.candidate_add_eq h k

/-- **Chains with equal candidates have met**, at two different questions of the oracle or because
one message is a question of the other. -/
theorem meet_of_candidate_eq {m m' : Bytes} (i : ℕ) :
    ∀ j, c.candidate m i = c.candidate m' j →
      (∃ a ≤ i, ∃ b ≤ j, c.question m a ≠ c.question m' b ∧
        c.candidate m a = c.candidate m' b) ∨
      (∃ k ≤ i, m' = c.question m k) ∨ ∃ k ≤ j, m = c.question m' k := by
  -- back along both chains as long as the questions agree, until one of them is the message itself
  induction i with
  | zero =>
    intro j h
    by_cases hq : c.question m 0 = c.question m' j
    · exact Or.inr (Or.inr ⟨j, le_rfl, hq⟩)
    · exact Or.inl ⟨0, le_rfl, j, le_rfl, hq, h⟩
  | succ i ih =>
    intro j h
    by_cases hq : c.question m (i + 1) = c.question m' j
    · rcases j with _ | j
      · exact Or.inr (Or.inl ⟨i + 1, le_rfl, hq.symm⟩)
      · have h' := Bytes.ofNat_injective hq
        rcases ih j h' with ⟨a, ha, b, hb, hne, heq⟩ | ⟨k, hk, hm⟩ | ⟨k, hk, hm⟩
        · exact Or.inl ⟨a, ha.trans i.le_succ, b, hb.trans j.le_succ, hne, heq⟩
        · exact Or.inr (Or.inl ⟨k, hk.trans i.le_succ, hm⟩)
        · exact Or.inr (Or.inr ⟨k, hk.trans j.le_succ, hm⟩)
    · exact Or.inl ⟨i + 1, le_rfl, j, le_rfl, hq, h⟩

/-- A message that spells a candidate of another continues its chain. -/
theorem candidate_ofNat_candidate (m : Bytes) (i : ℕ) :
    c.candidate (Bytes.ofNat (c.candidate m i)) 0 = c.candidate m (i + 1) := rfl

/-- The random oracle has one value at two different questions, asked for candidates of `m` up to
`t` and of `m'` up to `t'`. -/
def OracleCollision (c : Curve) (m m' : Bytes) (t t' : ℕ) : Prop :=
  ∃ a ≤ t, ∃ b ≤ t', c.question m a ≠ c.question m' b ∧
    Oracle.value (c.question m a) c.prime = Oracle.value (c.question m' b) c.prime

/-- A message spells, in as few bytes as possible, one of the first `t` candidates of `m`. -/
def SpellsCandidate (c : Curve) (m m' : Bytes) (t : ℕ) : Prop :=
  ∃ k < t, m' = Bytes.ofNat (c.candidate m k)

theorem candidate_eq_iff {m m' : Bytes} (hne : m ≠ m') {t t' : ℕ} (ht : c.FirstHit m t)
    (ht' : c.FirstHit m' t') :
    c.candidate m t = c.candidate m' t' ↔
      c.OracleCollision m m' t t' ∨ c.SpellsCandidate m m' t ∨ c.SpellsCandidate m' m t' := by
  constructor
  · intro h
    rcases meet_of_candidate_eq t t' h with ⟨a, ha, b, hb, hq, heq⟩ | ⟨k, hk, hm⟩ | ⟨k, hk, hm⟩
    · left
      exact ⟨a, ha, b, hb, hq, by rw [value_question, value_question, heq]⟩
    · rcases k with _ | k
      · exact absurd hm.symm hne
      · exact Or.inr (Or.inl ⟨k, hk, hm⟩)
    · rcases k with _ | k
      · exact absurd hm hne
      · exact Or.inr (Or.inr ⟨k, hk, hm⟩)
  · rintro (⟨a, ha, b, hb, -, heq⟩ | ⟨k, hk, rfl⟩ | ⟨k, hk, rfl⟩)
    · rw [value_question, value_question] at heq
      exact candidate_eq_of_meet ht ht' ha hb heq
    · exact candidate_eq_of_meet ht ht' hk (Nat.zero_le t') (candidate_ofNat_candidate m k).symm
    · exact candidate_eq_of_meet ht ht' (Nat.zero_le t) hk (candidate_ofNat_candidate m' k)

/-- Hashed points are known by their first coordinate. -/
theorem eq_iff_candidate_eq {m m' : Bytes} {P Q : Point} {t t' : ℕ}
    (hP : c.liftX (c.candidate m t) false = .ok P)
    (hQ : c.liftX (c.candidate m' t') false = .ok Q) :
    P = Q ↔ c.candidate m t = c.candidate m' t' := by
  constructor
  · rintro rfl
    obtain ⟨y, rfl⟩ := c.exists_affine_of_liftX hP
    obtain ⟨y', heq⟩ := c.exists_affine_of_liftX hQ
    exact (Point.affine.inj heq).1
  · intro h
    rw [h] at hP
    exact Except.ok.inj (hP.symm.trans hQ)

end Curve

namespace Cipher

variable {c : Curve}

/-- Under one key encryptions are equal where the hashed points are. -/
theorem exists_encrypt_eq_iff (cipher : Cipher c) {x y : Datum} {P Q : Point} (hx : c.Hashes x P)
    (hy : c.Hashes y Q) (s s' : Scratch) :
    ∃ e f, (cipher.encrypt x).result s = .ok e ∧ (cipher.encrypt y).result s' = .ok f ∧
      (e = f ↔ P = Q) := by
  obtain ⟨A, hA, rfl⟩ := hx.exists_coordinates
  obtain ⟨B, hB, rfl⟩ := hy.exists_coordinates
  obtain ⟨e, he, hrun⟩ := cipher.exists_run_encrypt hA hx
  obtain ⟨f, hf, hrun'⟩ := cipher.exists_run_encrypt hB hy
  refine ⟨e, f, Metered.result_of_forall_run hrun s, Metered.result_of_forall_run hrun' s', ?_⟩
  constructor
  · rintro rfl
    rw [cipher.eq_of_encodePoint_smul he hf]
  · intro h
    obtain rfl := c.equation.coordinates_injective h
    exact Except.ok.inj (he.symm.trans hf)

/-! ### A message that spells a candidate -/

/-- The first candidate for the message of the one byte `0x61` on the first curve.  It is no
coordinate of a point. -/
def passedOver : ℕ := 0x95ab6d0a425d2fb542f7e4f55561920988d8b4f4a1a6affc

theorem candidate_letter : Curve.secp192r1.candidate [0x61] 0 = passedOver := by decide +kernel

theorem firstHit_letter : Curve.secp192r1.FirstHit [0x61] 1 where
  hit := by decide +kernel
  miss i hi := by
    obtain rfl : i = 0 := by omega
    decide +kernel

theorem candidate_passedOver :
    Curve.secp192r1.candidate (Bytes.ofNat passedOver) 0 = Curve.secp192r1.candidate [0x61] 1 := by
  rw [← candidate_letter, Curve.candidate_ofNat_candidate]

theorem firstHit_passedOver : Curve.secp192r1.FirstHit (Bytes.ofNat passedOver) 0 where
  hit := by
    rw [candidate_passedOver]
    exact firstHit_letter.hit
  miss i hi := absurd hi (Nat.not_lt_zero i)

theorem letter_ne_passedOver : ([0x61] : Bytes) ≠ Bytes.ofNat passedOver := by decide +kernel

/-- Both are hashed to one point. -/
theorem exists_common_hash : ∃ P,
    (∃ s, (Curve.secp192r1.hashToPoint [0x61]).run {} = .ok P s) ∧
      ∃ s, (Curve.secp192r1.hashToPoint (Bytes.ofNat passedOver)).run {} = .ok P s := by
  obtain ⟨y, hlift, -⟩ :=
    Curve.secp192r1.exists_liftX (Curve.candidate_lt _ [0x61] 1) firstHit_letter.hit false
  refine ⟨_, (Curve.exists_run_hashToPoint_iff _ _ _ _).2 ⟨1, firstHit_letter, hlift⟩,
    (Curve.exists_run_hashToPoint_iff _ _ _ _).2 ⟨0, firstHit_passedOver, ?_⟩⟩
  rw [candidate_passedOver]
  exact hlift

/-! ### Collisions under a key -/

/-- **Which messages collide under a key.**  Different messages have the same encryption exactly
when they are hashed to the same point, and this is so exactly when the random oracle collides at
two questions of the two searches or one of the messages spells a candidate that was passed over for
the other. -/
theorem encrypt_eq_iff (cipher : Cipher c) {x y : Bytes} (hne : x ≠ y) {P Q : Point}
    {s₀ s₁ t₀ t₁ : Scratch} (hP : (c.hashToPoint x).run s₀ = .ok P s₁)
    (hQ : (c.hashToPoint y).run t₀ = .ok Q t₁) (s s' : Scratch) :
    ∃ e f i j, (cipher.encrypt (.bytes x)).result s = .ok e ∧
      (cipher.encrypt (.bytes y)).result s' = .ok f ∧ c.FirstHit x i ∧ c.FirstHit y j ∧
      (e = f ↔ P = Q) ∧
      (P = Q ↔ c.OracleCollision x y i j ∨ c.SpellsCandidate x y i ∨ c.SpellsCandidate y x j) := by
  obtain ⟨i, hi, hliftP⟩ := (c.exists_run_hashToPoint_iff x P s₀).1 ⟨s₁, hP⟩
  obtain ⟨j, hj, hliftQ⟩ := (c.exists_run_hashToPoint_iff y Q t₀).1 ⟨t₁, hQ⟩
  obtain ⟨e, f, he, hf, hiff⟩ := cipher.exists_encrypt_eq_iff (x := .bytes x) (y := .bytes y)
    ⟨x, s₀, s₁, rfl, hP⟩ ⟨y, t₀, t₁, rfl, hQ⟩ s s'
  refine ⟨e, f, i, j, he, hf, hi, hj, hiff, ?_⟩
  rw [Curve.eq_iff_candidate_eq hliftP hliftQ, Curve.candidate_eq_iff hne hi hj]

theorem encrypt_eq_iff_passedOver :
    ∃ (cipher : Cipher .secp192r1) (P Q : Point) (e f : Bytes) (i j : ℕ),
      [0x61] ≠ Bytes.ofNat passedOver ∧
      (∃ s, (Curve.secp192r1.hashToPoint [0x61]).run {} = .ok P s) ∧
      (∃ s, (Curve.secp192r1.hashToPoint (Bytes.ofNat passedOver)).run {} = .ok Q s) ∧
      (cipher.encrypt (.bytes [0x61])).result {} = .ok e ∧
      (cipher.encrypt (.bytes (Bytes.ofNat passedOver))).result {} = .ok f ∧
      e = f ∧ P = Q ∧ Curve.secp192r1.SpellsCandidate [0x61] (Bytes.ofNat passedOver) i ∧
      Curve.secp192r1.FirstHit [0x61] i ∧ Curve.secp192r1.FirstHit (Bytes.ofNat passedOver) j := by
  obtain ⟨cipher, -, -⟩ := exists_made (c := .secp192r1) ⟨2, by decide, by decide +kernel⟩
  obtain ⟨P, ⟨s, hs⟩, s', hs'⟩ := exists_common_hash
  obtain ⟨e, f, i, j, he, hf, hi, hj, hef, -⟩ :=
    encrypt_eq_iff cipher letter_ne_passedOver hs hs' {} {}
  obtain rfl := hi.unique firstHit_letter
  exact ⟨cipher, P, P, e, f, 1, j, letter_ne_passedOver, ⟨s, hs⟩, ⟨s', hs'⟩, he, hf, hef.2 rfl,
    rfl, ⟨0, one_pos, by rw [candidate_letter]⟩, hi, hj⟩

/-- **Messages can collide where the random oracle does not.**  The message `0x61` and the one that
spells the candidate passed over for it have the same encryption, although the oracle tells them
apart. -/
theorem encrypt_collision_of_rehash :
    ∃ (cipher : Cipher .secp192r1) (P : Point) (e : Bytes), cipher.Made ∧ cipher.key.val = 2 ∧
      (∃ s, (Curve.secp192r1.hashToPoint [0x61]).run {} = .ok P s) ∧
      (∃ s, (Curve.secp192r1.hashToPoint (Bytes.ofNat passedOver)).run {} = .ok P s) ∧
      (cipher.encrypt (.bytes [0x61])).result {} = .ok e ∧
      (cipher.encrypt (.bytes (Bytes.ofNat passedOver))).result {} = .ok e ∧
      [0x61] ≠ Bytes.ofNat passedOver ∧
      Oracle.value [0x61] Curve.secp192r1.prime ≠
        Oracle.value (Bytes.ofNat passedOver) Curve.secp192r1.prime := by
  obtain ⟨cipher, made, hkey⟩ := exists_made (c := .secp192r1) ⟨2, by decide, by decide +kernel⟩
  obtain ⟨P, ⟨s, hs⟩, s', hs'⟩ := exists_common_hash
  obtain ⟨e, f, he, hf, hiff⟩ := cipher.exists_encrypt_eq_iff (x := .bytes [0x61])
    (y := .bytes (Bytes.ofNat passedOver)) ⟨_, _, _, rfl, hs⟩ ⟨_, _, _, rfl, hs'⟩ {} {}
  obtain rfl := hiff.2 rfl
  have hmiss : Curve.secp192r1.candidate [0x61] 0 ≠ Curve.secp192r1.candidate [0x61] 1 := by
    intro h
    have hfalse := firstHit_letter.miss 0 one_pos
    rw [h, firstHit_letter.hit] at hfalse
    cases hfalse
  exact ⟨cipher, P, e, made, by rw [hkey], ⟨s, hs⟩, ⟨s', hs'⟩, he, hf, letter_ne_passedOver,
    fun h => hmiss (h.trans candidate_passedOver)⟩

end Cipher

end CurveLock

import CurveLock.Proofs.ElGamal.Steps

/-!
# Opposite points

The compressed forms of opposite points differ in the lowest bit of the tag and nowhere else
(`Curve.encodePoint_neg`), so inverting this bit (`flipTag`) makes the compressed form of the
opposite point of a compressed form (`Curve.decodePoint_neg`).  Everything that a cipher does to a
ciphertext, and that an ElGamal user does to a pair in an arithmetic that is that of the group,
takes opposite points to opposite points, and so commutes with inverting the bit.
-/

namespace CurveLock

/-- A compressed form with the lowest bit of its tag inverted. -/
def flipTag : Bytes → Bytes
  | [] => []
  | tag :: xs => (tag ^^^ 1) :: xs

namespace Curve

variable (c : Curve)

/-! ### Writing and reading -/

theorem tag_xor_one {y y' : ℕ} (h : y' % 2 = 1 - y % 2) : tag y ^^^ 1 = tag y' := by
  rcases Nat.mod_two_eq_zero_or_one y with hy | hy
  · rw [tag, tag, if_pos hy, if_neg (by omega)]
    rfl
  · rw [tag, tag, if_neg (by omega), if_pos (by omega)]
    rfl

theorem flipTag_ne {P : Point} {b : Bytes} (h : c.pointOfBytes b = .ok P) : flipTag b ≠ b := by
  obtain ⟨x, y, -, -, -, rfl⟩ := c.exists_of_pointOfBytes h
  intro hflip
  have htag := (List.cons.inj hflip).1
  rcases tag_eq_or y with hy | hy
  · rw [hy] at htag
    exact absurd htag (by decide)
  · rw [hy] at htag
    exact absurd htag (by decide)

theorem neg_eq_coordinates (A : c.equation.Group) :
    c.neg (c.equation.coordinates A) = c.equation.coordinates (-A) := c.equation.neg_coordinates A

/-- **The compressed form of the opposite point has the other tag.** -/
theorem encodePoint_neg {P : Point} (hP : c.equation.Contains P) :
    c.encodePoint (c.neg P) = (c.encodePoint P).map flipTag := by
  rcases P with _ | ⟨x, y⟩
  · rfl
  · obtain ⟨hneg, hpar⟩ := c.contains_opposite hP
    obtain ⟨hx, hlt, -⟩ := c.equation.contains_affine_iff.1 hneg
    have hopposite : c.neg (.affine x y) = .affine x (c.prime - y) :=
      congrArg (Point.affine x) (Nat.mod_eq_of_lt hlt)
    rw [hopposite, c.encodePoint_affine hx, c.encodePoint_affine hx, ← tag_xor_one hpar]
    rfl

theorem encodePoint_coordinates_neg (A : c.equation.Group) :
    c.encodePoint (c.equation.coordinates (-A)) =
      (c.encodePoint (c.equation.coordinates A)).map flipTag := by
  rw [← c.neg_eq_coordinates, c.encodePoint_neg (c.equation.contains_coordinates A)]

/-- **With the other tag the opposite point is read.** -/
theorem decodePoint_neg {d d' : Datum} {b : Bytes} (hd : d.bytes? = some b)
    (hd' : d'.bytes? = some (flipTag b)) {A : c.equation.Group}
    (h : c.decodePoint d = .ok (c.equation.coordinates A)) :
    c.decodePoint d' = .ok (c.equation.coordinates (-A)) := by
  rw [c.decodePoint_eq hd, pointOfBytes_eq_ok_iff] at h
  rw [c.decodePoint_eq hd', pointOfBytes_eq_ok_iff, c.encodePoint_coordinates_neg, h.2]
  exact ⟨c.equation.contains_coordinates _, rfl⟩

theorem decodePair_neg {d d' : Datum} {p q : Bytes} (hd : d.Holds (p, q))
    (hd' : d'.Holds (flipTag p, flipTag q)) {A B : c.equation.Group}
    (h : c.decodePair d = .ok (c.equation.coordinates A, c.equation.coordinates B)) :
    c.decodePair d' = .ok (c.equation.coordinates (-A), c.equation.coordinates (-B)) := by
  obtain ⟨d₁, d₂, hpair, hp, hq⟩ := hd
  obtain ⟨d₁', d₂', hpair', hp', hq'⟩ := hd'
  obtain ⟨_, _, hparts, hA, hB⟩ := c.decodePair_eq_ok_iff.1 h
  cases hpair.symm.trans hparts
  exact c.decodePair_eq_ok_iff.2
    ⟨d₁', d₂', hpair', c.decodePoint_neg hp hp' hA, c.decodePoint_neg hq hq' hB⟩

theorem add_neg_coordinates (A : c.equation.Group) :
    c.add (c.equation.coordinates A) (c.equation.coordinates (-A)) = .infinity := by
  rw [Curve.add, c.equation.add_coordinates, add_neg_cancel, c.equation.coordinates_zero]

end Curve

variable {c : Curve}

/-! ### Ciphers -/

namespace Cipher

/-- Multiples of opposite points are written with opposite tags. -/
theorem eq_flipTag_of_smul {k : ZMod c.order} {A : c.equation.Group} {b b' : Bytes}
    (hb : c.encodePoint (c.equation.coordinates (k • A)) = .ok b)
    (hb' : c.encodePoint (c.equation.coordinates (k • -A)) = .ok b') : b' = flipTag b := by
  rw [smul_neg, c.encodePoint_coordinates_neg, hb] at hb'
  exact (Except.ok.inj hb').symm

section

variable {A : c.equation.Group} (hA : A ≠ 0) {d d' : Datum}
  (hd : c.decodePoint d = .ok (c.equation.coordinates A))
  (hd' : c.decodePoint d' = .ok (c.equation.coordinates (-A)))

include hA hd hd'

theorem result_reEncrypt_neg (cipher : Cipher c) : ∃ b, ∀ s s',
    (cipher.reEncrypt d).result s = .ok b ∧ (cipher.reEncrypt d').result s' = .ok (flipTag b) := by
  obtain ⟨b, hb, hrun⟩ := cipher.exists_run_reEncrypt hA hd
  obtain ⟨b', hb', hrun'⟩ := cipher.exists_run_reEncrypt (neg_ne_zero.2 hA) hd'
  obtain rfl := eq_flipTag_of_smul hb hb'
  exact ⟨b, fun s s' =>
    ⟨Metered.result_of_forall_run hrun s, Metered.result_of_forall_run hrun' s'⟩⟩

theorem Made.result_decrypt_neg {cipher : Cipher c} (made : cipher.Made) : ∃ b, ∀ s s',
    (cipher.decrypt d).result s = .ok b ∧ (cipher.decrypt d').result s' = .ok (flipTag b) := by
  obtain ⟨b, hb, hrun⟩ := made.exists_run_decrypt hA hd
  obtain ⟨b', hb', hrun'⟩ := made.exists_run_decrypt (neg_ne_zero.2 hA) hd'
  obtain rfl := eq_flipTag_of_smul hb hb'
  exact ⟨b, fun s s' =>
    ⟨Metered.result_of_forall_run hrun s, Metered.result_of_forall_run hrun' s'⟩⟩

end

end Cipher

/-! ### Pairs -/

section Pairs

variable {A B : c.equation.Group} {d d' : Datum}
  (hd : c.decodePair d = .ok (c.equation.coordinates A, c.equation.coordinates B))
  (hd' : c.decodePair d' = .ok (c.equation.coordinates (-A), c.equation.coordinates (-B)))

include hd hd'

theorem Cipher.result_reEncryptPair_neg (cipher : Cipher c) (hA : A ≠ 0) (hB : B ≠ 0) :
    ∃ p q, ∀ s s', (cipher.reEncryptPair d).result s = .ok (p, q) ∧
      (cipher.reEncryptPair d').result s' = .ok (flipTag p, flipTag q) := by
  obtain ⟨p, q, hp, hq, hrun⟩ := cipher.exists_run_reEncryptPair hA hB hd
  obtain ⟨p', q', hp', hq', hrun'⟩ :=
    cipher.exists_run_reEncryptPair (neg_ne_zero.2 hA) (neg_ne_zero.2 hB) hd'
  obtain rfl := eq_flipTag_of_smul hp hp'
  obtain rfl := eq_flipTag_of_smul hq hq'
  exact ⟨p, q, fun s s' =>
    ⟨Metered.result_of_forall_run hrun s, Metered.result_of_forall_run hrun' s'⟩⟩

namespace ElGamal

/-- **Decrypting opposite parts gives the opposite message**, or fails where decrypting the parts
does. -/
theorem result_decryptIn_neg {ops : c.Arithmetic} (hops : ops.IsGroup) (keys : ElGamal c)
    (s s' : Scratch) :
    (keys.decryptIn ops d').result s' = ((keys.decryptIn ops d).result s).map flipTag := by
  rcases hx : keys.privateKey with _ | x
  · rw [result_decryptIn_of_public hx, result_decryptIn_of_public hx]
    rfl
  · have hneg : -B - (x.val : ZMod c.order) • -A = -(B - (x.val : ZMod c.order) • A) := by
      rw [smul_neg, neg_sub_neg, neg_sub]
    rw [result_decryptIn_of_decodePair hx hd, result_decryptIn_of_decodePair hx hd',
      hops.difference_coordinates, hops.difference_coordinates, hneg]
    simp only [c.equation.coordinates_eq_infinity_iff, neg_eq_zero]
    split_ifs
    · rfl
    · exact c.encodePoint_coordinates_neg _

end ElGamal

end Pairs

/-! ### All of them -/

/-- **Inverting the lowest bit of the tag commutes with what is done to compressed forms.**  Of a
byte string that is read as a point it makes another one, which is read as the opposite point.
Whatever cipher encrypts the one again or decrypts it does so with the other, and the results differ
in that bit too.  So it is with both parts of a pair, for ciphers and for ElGamal users; these
refuse the one pair exactly where they refuse the other, in every arithmetic that is that of the
group. -/
theorem opposite_points (c : Curve) :
    (∀ (d d' : Datum) (e : Bytes) (P : Point), d.bytes? = some e → c.decodePoint d = .ok P →
      d'.bytes? = some (flipTag e) →
        flipTag e ≠ e ∧ c.decodePoint d' = .ok (c.neg P) ∧ c.add P (c.neg P) = .infinity ∧
        (∀ cipher : Cipher c, ∃ b, ∀ s s', (cipher.reEncrypt d).result s = .ok b ∧
          (cipher.reEncrypt d').result s' = .ok (flipTag b)) ∧
        ∀ cipher : Cipher c, cipher.Made → ∃ b, ∀ s s', (cipher.decrypt d).result s = .ok b ∧
          (cipher.decrypt d').result s' = .ok (flipTag b)) ∧
    ∀ (d d' : Datum) (p q : Bytes) (P Q : Point), d.Holds (p, q) → c.decodePair d = .ok (P, Q) →
      d'.Holds (flipTag p, flipTag q) →
        c.decodePair d' = .ok (c.neg P, c.neg Q) ∧
        (∀ cipher : Cipher c, ∃ p' q', ∀ s s',
          (cipher.reEncryptPair d).result s = .ok (p', q') ∧
          (cipher.reEncryptPair d').result s' = .ok (flipTag p', flipTag q')) ∧
        ∀ ops : c.Arithmetic, ops.IsGroup → ∀ (keys : ElGamal c) (s s' : Scratch),
          (keys.decryptIn ops d').result s' =
            ((keys.decryptIn ops d).result s).map flipTag := by
  constructor
  · intro d d' e P he h he'
    have hne := c.flipTag_ne ((c.decodePoint_eq he).symm.trans h)
    obtain ⟨A, hA, rfl, -⟩ := c.exists_of_decodePoint h
    have h' := c.decodePoint_neg he he' h
    rw [c.neg_eq_coordinates]
    exact ⟨hne, h', c.add_neg_coordinates A, fun cipher => cipher.result_reEncrypt_neg hA h h',
      fun cipher made => made.result_decrypt_neg hA h h'⟩
  · intro d d' p q P Q hpq h hpq'
    obtain ⟨A, B, hA, hB, rfl, rfl, -⟩ := c.exists_of_decodePair h
    have h' := c.decodePair_neg hpq hpq' h
    rw [c.neg_eq_coordinates, c.neg_eq_coordinates]
    exact ⟨h', fun cipher => cipher.result_reEncryptPair_neg h h' hA hB,
      fun _ hops keys s s' => ElGamal.result_decryptIn_neg h h' hops keys s s'⟩

theorem opposite_points_generator :
    ∃ e : Bytes, Curve.secp192r1.encodePoint Curve.secp192r1.generator = .ok e ∧ flipTag e ≠ e ∧
      Curve.secp192r1.decodePoint (.bytes (flipTag e)) =
        .ok (Curve.secp192r1.neg Curve.secp192r1.generator) ∧
      (∃ cipher : Cipher .secp192r1, cipher.Made ∧ cipher.key.val = 2 ∧
        ∃ b, (cipher.decrypt (.bytes e)).result {} = .ok b ∧
          (cipher.decrypt (.bytes (flipTag e))).result {} = .ok (flipTag b)) ∧
      ∃ keys : ElGamal .secp192r1, keys.privateKey.map Key.val = some 2 ∧
        (keys.decryptIn Curve.secp192r1.plain (.ofPair (flipTag e, flipTag e))).result {} =
          ((keys.decryptIn Curve.secp192r1.plain (.ofPair (e, e))).result {}).map flipTag ∧
        (keys.decrypt (.ofPair (flipTag e, flipTag e))).result {} =
          ((keys.decrypt (.ofPair (e, e))).result {}).map flipTag := by
  obtain ⟨hone, hpair⟩ := opposite_points .secp192r1
  obtain ⟨e, he, -⟩ := Curve.secp192r1.exists_encodePoint Curve.secp192r1.contains_generator
    (by decide)
  have hG : Curve.secp192r1.decodePoint (.bytes e) = .ok Curve.secp192r1.generator := by
    rw [Curve.secp192r1.decodePoint_eq rfl]
    exact Curve.secp192r1.pointOfBytes_eq_ok_iff.2 ⟨Curve.secp192r1.contains_generator, he⟩
  have hGG : Curve.secp192r1.decodePair (.ofPair (e, e)) =
      .ok (Curve.secp192r1.generator, Curve.secp192r1.generator) :=
    Curve.secp192r1.decodePair_eq_ok_iff.2 ⟨_, _, rfl, hG, hG⟩
  let two : Key .secp192r1 := ⟨2, by decide, by decide +kernel⟩
  obtain ⟨cipher, made, hkey⟩ := Cipher.exists_made two
  obtain ⟨hne, hread, -, -, hdecrypt⟩ := hone (.bytes e) (.bytes (flipTag e)) e _ rfl hG rfl
  obtain ⟨b, hb⟩ := hdecrypt cipher made
  obtain ⟨hGG', -, hkeys⟩ := hpair (.ofPair (e, e)) (.ofPair (flipTag e, flipTag e)) e e _ _
    (Datum.holds_ofPair _) hGG (Datum.holds_ofPair _)
  have hplain := hkeys _ Curve.isGroup_plain ⟨Curve.secp192r1.generator, some two⟩ {} {}
  refine ⟨e, he, hne, hread, ⟨cipher, made, by rw [hkey], b, hb {} {}⟩,
    ⟨Curve.secp192r1.generator, some two⟩, rfl, hplain, ?_⟩
  rw [ElGamal.result_decrypt_eq_of_weight_ne_one Curve.isGroup_plain rfl hGG (by decide +kernel),
    ElGamal.result_decrypt_eq_of_weight_ne_one Curve.isGroup_plain rfl hGG' (by decide +kernel),
    hplain]

end CurveLock

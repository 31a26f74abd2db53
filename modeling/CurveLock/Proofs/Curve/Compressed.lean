import CurveLock.Curve.Compressed
import CurveLock.Proofs.Bytes
import CurveLock.Proofs.Curve.Order
import CurveLock.Proofs.Number.SquareRoot

/-!
# The compressed form is exact

Over every coordinate that has points at all there are two, an even and an odd one, because no point
has zero as its second coordinate.  So the tag byte tells them apart, and reading and writing undo
each other (`Curve.pointOfBytes_eq_ok_iff`).
-/

namespace CurveLock

namespace Curve

variable (c : Curve)

theorem modulus_mod_two : c.equation.p % 2 = 1 := Weierstrass.Regular.odd

theorem modulus_ne_zero : c.equation.p ≠ 0 := (Weierstrass.Regular.prime (W := c.equation)).ne_zero

/-! ### Squares of the field -/

theorem not_isSquare_nonSquare : ¬ IsSquare (c.parameters.nonSquare : ZMod c.equation.p) := by
  have test : isSquareMod c.equation.p c.parameters.nonSquare = false := by
    cases c <;> decide +kernel
  have nonzero : c.parameters.nonSquare % c.equation.p ≠ 0 := by
    cases c <;> decide +kernel
  intro h
  have hne : (c.parameters.nonSquare : ZMod c.equation.p) ≠ 0 := by
    rwa [Ne, ZMod.natCast_eq_zero_iff, Nat.dvd_iff_mod_eq_zero]
  rw [(isSquareMod_iff c.modulus_mod_two _).2 ⟨hne, h⟩] at test
  cases test

/-- **The square test accepts the squares other than zero.** -/
theorem isSquare_iff (v : ℤ) :
    c.isSquare v = true ↔ (v : ZMod c.equation.p) ≠ 0 ∧ IsSquare (v : ZMod c.equation.p) := by
  rw [isSquare, prime, isSquareMod_iff c.modulus_mod_two,
    Weierstrass.cast_toNat_emod c.modulus_ne_zero]

/-- **A square other than zero has a root.** -/
theorem exists_root {v : ℕ} (hsq : IsSquare (v : ZMod c.equation.p)) :
    ∃ y, c.root v = .ok y ∧ y < c.prime ∧ (y : ZMod c.equation.p) ^ 2 = v := by
  obtain ⟨r, hr⟩ := (exists_sqrtMod?_iff c.modulus_mod_two c.not_isSquare_nonSquare v).2 hsq
  obtain ⟨hlt, hroot⟩ := sqrtMod?_eq_some hr
  exact ⟨r, by rw [root, prime, hr], hlt, hroot⟩

/-! ### Points over a coordinate -/

theorem cast_rightSide (x : ℤ) :
    (c.rightSide x : ZMod c.equation.p) =
      (x : ZMod c.equation.p) ^ 3 + c.equation.a * x + c.equation.b := by
  rw [rightSide, Weierstrass.cast_rightSide, prime,
    Weierstrass.cast_toNat_emod c.modulus_ne_zero]

theorem isSquare_rightSide_iff (x : ℕ) :
    c.isSquare (c.rightSide x) = true ↔
      ∃ y : ℕ, (y : ZMod c.equation.p) ^ 2 =
        (x : ZMod c.equation.p) ^ 3 + c.equation.a * x + c.equation.b := by
  rw [isSquare_iff, Int.cast_natCast, cast_rightSide, Int.cast_natCast]
  constructor
  · rintro ⟨-, y, hy⟩
    exact ⟨y.val, by rw [ZMod.natCast_zmod_val, hy, sq]⟩
  · rintro ⟨y, hy⟩
    exact ⟨Weierstrass.Regular.rightSide_ne_zero _, y, by rw [← hy, sq]⟩

theorem not_contains_zero (x : ℕ) : ¬ c.equation.Contains (.affine x 0) := by
  intro h
  have heq := ((c.equation.contains_affine_iff).1 h).2.2
  rw [Nat.cast_zero, zero_pow (by decide)] at heq
  exact Weierstrass.Regular.rightSide_ne_zero _ heq.symm

/-- The opposite point has the other parity. -/
theorem contains_opposite {x y : ℕ} (h : c.equation.Contains (.affine x y)) :
    c.equation.Contains (.affine x (c.prime - y)) ∧ (c.prime - y) % 2 = 1 - y % 2 := by
  have hy0 : y ≠ 0 := by
    rintro rfl
    exact c.not_contains_zero x h
  rw [Weierstrass.contains_affine_iff] at h ⊢
  obtain ⟨hx, hy, heq⟩ := h
  have odd : c.equation.p % 2 = 1 := c.modulus_mod_two
  rw [prime, Weierstrass.cast_modulus_sub hy.le, neg_sq]
  exact ⟨⟨hx, by omega, heq⟩, by omega⟩

theorem eq_of_contains_of_mod_two {x y z : ℕ} (hy : c.equation.Contains (.affine x y))
    (hz : c.equation.Contains (.affine x z)) (hpar : y % 2 = z % 2) : y = z := by
  rw [Weierstrass.contains_affine_iff] at hy hz
  have heq := c.equation.eq_of_sq_eq_of_mod_two (hy.2.2.trans hz.2.2.symm)
    (by rwa [ZMod.val_natCast_of_lt hy.2.1, ZMod.val_natCast_of_lt hz.2.1])
  rw [← ZMod.val_natCast_of_lt hy.2.1, heq, ZMod.val_natCast_of_lt hz.2.1]

/-- A point or its opposite has the parity that is asked for. -/
theorem contains_withParity {x y : ℕ} (h : c.equation.Contains (.affine x y)) (odd : Bool) :
    c.equation.Contains (.affine x (c.withParity odd y)) ∧
      (c.withParity odd y % 2 = 1 ↔ odd = true) := by
  rw [withParity]
  split_ifs with hpar
  · exact ⟨h, by rw [← hpar, beq_iff_eq]⟩
  · obtain ⟨hopposite, hother⟩ := c.contains_opposite h
    refine ⟨hopposite, ?_⟩
    cases odd with
    | false =>
      have hy : y % 2 = 1 := by simpa using hpar
      simp only [Bool.false_eq_true, iff_false]
      omega
    | true =>
      have hy : y % 2 ≠ 1 := by simpa using hpar
      simp only [iff_true]
      omega

/-- Over a coordinate that passes the square test both points are found. -/
theorem exists_liftX {x : ℕ} (hx : x < c.prime) (hsq : c.isSquare (c.rightSide x) = true)
    (odd : Bool) :
    ∃ y, c.liftX x odd = .ok (.affine x y) ∧ c.equation.Contains (.affine x y) ∧
      (y % 2 = 1 ↔ odd = true) := by
  obtain ⟨-, hsq'⟩ := (c.isSquare_iff _).1 hsq
  rw [Int.cast_natCast] at hsq'
  obtain ⟨y, hroot, hlt, hy⟩ := c.exists_root hsq'
  have hlift : c.liftX x odd = .ok (.affine x (c.withParity odd y)) := by
    rw [liftX]
    simp only [hsq, if_true, hroot]
    rfl
  have hcontains : c.equation.Contains (.affine x y) := by
    rw [Weierstrass.contains_affine_iff, hy, cast_rightSide, Int.cast_natCast]
    exact ⟨hx, hlt, rfl⟩
  exact ⟨_, hlift, c.contains_withParity hcontains odd⟩

theorem exists_affine_of_liftX {x : ℕ} {odd : Bool} {P : Point} (h : c.liftX x odd = .ok P) :
    ∃ y, P = .affine x y := by
  rw [liftX] at h
  by_cases hsq : c.isSquare (c.rightSide x) = true
  · simp only [hsq, if_true] at h
    rcases hy : c.root (c.rightSide x) with f | y
    · rw [hy] at h
      cases h
    · rw [hy] at h
      exact ⟨_, (Except.ok.inj h).symm⟩
  · simp only [hsq] at h
    cases h

theorem liftX_of_contains {x y : ℕ} (h : c.equation.Contains (.affine x y)) :
    c.liftX x (y % 2 = 1) = .ok (.affine x y) := by
  obtain ⟨hx, -, heq⟩ := (c.equation.contains_affine_iff).1 h
  obtain ⟨z, hlift, hz, hpar⟩ := c.exists_liftX hx ((c.isSquare_rightSide_iff x).2 ⟨y, heq⟩)
    (decide (y % 2 = 1))
  rw [decide_eq_true_iff] at hpar
  -- of the two points over `x` one has the parity of `y`
  rw [hlift, c.eq_of_contains_of_mod_two hz h (by omega)]

/-! ### Writing and reading -/

theorem fieldWidth_lt : (c.fieldWidth : ℤ) < Datum.memoryLimit := by
  cases c <;> decide +kernel

/-- The tag byte for a second coordinate. -/
def tag (y : ℕ) : UInt8 := if y % 2 = 0 then evenTag else oddTag

theorem tag_eq_oddTag_iff (y : ℕ) : tag y = oddTag ↔ y % 2 = 1 := by
  rw [tag]
  split_ifs with h
  · exact ⟨fun h0 => absurd h0 (by decide), fun h1 => by omega⟩
  · exact ⟨fun _ => by omega, fun _ => rfl⟩

theorem tag_eq_or (y : ℕ) : tag y = evenTag ∨ tag y = oddTag := by
  rw [tag]
  split_ifs
  · exact Or.inl rfl
  · exact Or.inr rfl

theorem eq_tag {t : UInt8} {y : ℕ} (ht : t = evenTag ∨ t = oddTag)
    (hpar : y % 2 = 1 ↔ t = oddTag) : t = tag y := by
  rcases ht with rfl | rfl
  · have heven : ¬ y % 2 = 1 := fun h => absurd (hpar.1 h) (by decide)
    rw [tag, if_pos (by omega)]
  · have hodd := hpar.2 rfl
    rw [tag, if_neg (by omega)]

theorem toNat_coordinate {x : ℕ} (hx : x < c.prime) :
    Bytes.toNat (Bytes.ofNatWidth c.fieldWidth x) = x :=
  Bytes.toNat_ofNatWidth_of_lt (hx.trans (lt_pow_byteLength c.prime))

theorem encodePoint_affine {x : ℕ} (hx : x < c.prime) (y : ℕ) :
    c.encodePoint (.affine x y) = .ok (tag y :: Bytes.ofNatWidth c.fieldWidth x) := by
  have hwidth := encodeInteger_width c.fieldWidth_lt (hx.trans (lt_pow_byteLength c.prime))
  rw [encodePoint]
  simp only [hwidth]
  rfl

theorem pointOfBytes_encoding {x y : ℕ} (h : c.equation.Contains (.affine x y)) :
    c.pointOfBytes (tag y :: Bytes.ofNatWidth c.fieldWidth x) = .ok (.affine x y) := by
  have hx : x < c.prime := ((c.equation.contains_affine_iff).1 h).1
  have htag : ¬ (tag y ≠ evenTag ∧ tag y ≠ oddTag) := by
    rintro ⟨heven, hodd⟩
    exact (tag_eq_or y).elim heven hodd
  rw [pointOfBytes, if_neg (by simp [add_comm]), if_neg htag, c.toNat_coordinate hx,
    if_neg (by omega)]
  simp only [tag_eq_oddTag_iff]
  exact c.liftX_of_contains h

theorem pointOfBytes_cases (b : Bytes) :
    (∃ x y, c.equation.Contains (.affine x y) ∧ b = tag y :: Bytes.ofNatWidth c.fieldWidth x) ∨
      ∃ r, c.pointOfBytes b = .error (.refused r) := by
  rcases b with _ | ⟨t, xs⟩
  · exact Or.inr ⟨_, rfl⟩
  rw [pointOfBytes]
  split_ifs with hlength htag hx
  · exact Or.inr ⟨_, rfl⟩
  · exact Or.inr ⟨_, rfl⟩
  · exact Or.inr ⟨_, rfl⟩
  have hwidth : xs.length = c.fieldWidth := by
    rw [not_not, List.length_cons] at hlength
    omega
  have htag' : t = evenTag ∨ t = oddTag := by
    by_contra h
    exact htag (not_or.1 h)
  by_cases hsq : c.isSquare (c.rightSide (Bytes.toNat xs)) = true
  · left
    obtain ⟨y, -, hcontains, hpar⟩ := c.exists_liftX (not_le.1 hx) hsq (t = oddTag)
    rw [decide_eq_true_iff] at hpar
    refine ⟨_, y, hcontains, ?_⟩
    rw [← hwidth, Bytes.ofNatWidth_toNat, eq_tag htag' hpar]
  · right
    refine ⟨.noSuchPoint c, ?_⟩
    rw [liftX]
    simp only [hsq]
    rfl

theorem exists_of_pointOfBytes {b : Bytes} {P : Point} (h : c.pointOfBytes b = .ok P) :
    ∃ x y, P = .affine x y ∧ x < c.prime ∧ c.equation.Contains (.affine x y) ∧
      b = tag y :: Bytes.ofNatWidth c.fieldWidth x := by
  rcases c.pointOfBytes_cases b with ⟨x, y, hcontains, rfl⟩ | ⟨r, hr⟩
  · rw [c.pointOfBytes_encoding hcontains] at h
    exact ⟨x, y, (Except.ok.inj h).symm, ((c.equation.contains_affine_iff).1 hcontains).1,
      hcontains, rfl⟩
  · rw [hr] at h
    cases h

/-- **Reading undoes writing, and only writing undoes reading.** -/
theorem pointOfBytes_eq_ok_iff {b : Bytes} {P : Point} :
    c.pointOfBytes b = .ok P ↔ c.equation.Contains P ∧ c.encodePoint P = .ok b := by
  constructor
  · intro h
    obtain ⟨x, y, rfl, hx, hcontains, rfl⟩ := c.exists_of_pointOfBytes h
    exact ⟨hcontains, c.encodePoint_affine hx y⟩
  · rintro ⟨hcontains, hencode⟩
    rcases P with _ | ⟨x, y⟩
    · cases hencode
    · rw [c.encodePoint_affine ((c.equation.contains_affine_iff).1 hcontains).1] at hencode
      obtain rfl := Except.ok.inj hencode
      exact c.pointOfBytes_encoding hcontains

theorem encodePoint_injective {P Q : Point} (hP : c.equation.Contains P)
    (hQ : c.equation.Contains Q) {b : Bytes} (hb : c.encodePoint P = .ok b)
    (hb' : c.encodePoint Q = .ok b) : P = Q := by
  have hPb := c.pointOfBytes_eq_ok_iff.2 ⟨hP, hb⟩
  rw [c.pointOfBytes_eq_ok_iff.2 ⟨hQ, hb'⟩] at hPb
  exact (Except.ok.inj hPb).symm

/-- A finite point is written. -/
theorem exists_encodePoint {P : Point} (hP : c.equation.Contains P) (hne : P ≠ .infinity) :
    ∃ b, c.encodePoint P = .ok b ∧ b.length = 1 + c.fieldWidth := by
  rcases P with _ | ⟨x, y⟩
  · exact absurd rfl hne
  · refine ⟨_, c.encodePoint_affine ((c.equation.contains_affine_iff).1 hP).1 y, ?_⟩
    rw [List.length_cons, Bytes.length_ofNatWidth, add_comm]

theorem decodePoint_eq {d : Datum} {b : Bytes} (hd : d.bytes? = some b) :
    c.decodePoint d = c.pointOfBytes b := by
  rw [decodePoint, hd]

theorem decodePoint_of_bytes?_eq_none {d : Datum} (hd : d.bytes? = none) :
    c.decodePoint d = .error (.refused (.notBytes .point d)) := by
  rw [decodePoint, hd]
  rfl

/-- Reading fails in no other way than by refusing what it is given. -/
theorem decodePoint_cases (d : Datum) :
    (∃ b P, d.bytes? = some b ∧ c.equation.Contains P ∧ c.encodePoint P = .ok b ∧
      c.decodePoint d = .ok P) ∨
      ∃ r, c.decodePoint d = .error (.refused r) := by
  rcases hd : d.bytes? with _ | b
  · exact Or.inr ⟨_, c.decodePoint_of_bytes?_eq_none hd⟩
  rw [c.decodePoint_eq hd]
  rcases c.pointOfBytes_cases b with ⟨x, y, hcontains, rfl⟩ | hr
  · have h := c.pointOfBytes_encoding hcontains
    obtain ⟨hP, hb⟩ := c.pointOfBytes_eq_ok_iff.1 h
    exact Or.inl ⟨_, _, rfl, hP, hb, h⟩
  · exact Or.inr hr

/-! ### Points of the group -/

/-- The coordinates of a point other than zero are written. -/
theorem exists_encodePoint_coordinates {A : c.equation.Group} (hA : A ≠ 0) :
    ∃ b, c.encodePoint (c.equation.coordinates A) = .ok b := by
  obtain ⟨b, hb, -⟩ := c.exists_encodePoint (c.equation.contains_coordinates A)
    (mt c.equation.coordinates_eq_infinity_iff.1 hA)
  exact ⟨b, hb⟩

theorem encodePoint_coordinates_iff {A X : c.equation.Group} {b : Bytes}
    (hb : c.encodePoint (c.equation.coordinates A) = .ok b) :
    c.encodePoint (c.equation.coordinates X) = .ok b ↔ X = A := by
  constructor
  · intro h
    exact c.equation.coordinates_injective (c.encodePoint_injective
      (c.equation.contains_coordinates X) (c.equation.contains_coordinates A) h hb)
  · rintro rfl
    exact hb

/-- What is read is a point other than zero. -/
theorem exists_of_decodePoint {d : Datum} {P : Point} (h : c.decodePoint d = .ok P) :
    ∃ A : c.equation.Group, A ≠ 0 ∧ P = c.equation.coordinates A ∧
      ∃ b, d.bytes? = some b ∧ c.encodePoint P = .ok b := by
  rcases c.decodePoint_cases d with ⟨b, Q, hd, hcontains, hencode, hQ⟩ | ⟨r, hr⟩
  · obtain rfl := Except.ok.inj (h.symm.trans hQ)
    obtain ⟨A, rfl⟩ := c.equation.contains_iff.1 hcontains
    refine ⟨A, ?_, rfl, b, hd, hencode⟩
    rintro rfl
    cases hencode
  · rw [hr] at h
    cases h

theorem decodePoint_of_encodePoint {A : c.equation.Group} {b : Bytes}
    (h : c.encodePoint (c.equation.coordinates A) = .ok b) :
    c.decodePoint (.bytes b) = .ok (c.equation.coordinates A) := by
  rw [c.decodePoint_eq rfl]
  exact c.pointOfBytes_eq_ok_iff.2 ⟨c.equation.contains_coordinates A, h⟩

/-- The byte string is the compressed form of a point. -/
def Writes (b : Bytes) : Prop :=
  ∃ x y, c.equation.Contains (.affine x y) ∧ c.encodePoint (.affine x y) = .ok b

theorem writes_of_encodePoint {A : c.equation.Group} {b : Bytes}
    (h : c.encodePoint (c.equation.coordinates A) = .ok b) : c.Writes b := by
  have hcontains := c.equation.contains_coordinates A
  rcases hA : c.equation.coordinates A with _ | ⟨x, y⟩
  · rw [hA] at h
    cases h
  · rw [hA] at h hcontains
    exact ⟨x, y, hcontains, h⟩

/-! ### Which byte strings are points -/

/-- The byte strings that spell a point: a tag that is 2 or 3, and at the width of the field a first
coordinate below the prime over which the equation has a solution. -/
def SpellsPoint (b : Bytes) : Prop :=
  b.length = 1 + c.fieldWidth ∧ (b.head? = some 2 ∨ b.head? = some 3) ∧
    Bytes.toNat b.tail < c.prime ∧
    ∃ y, y ^ 2 ≡ Bytes.toNat b.tail ^ 3 + c.equation.a * Bytes.toNat b.tail + c.equation.b
      [MOD c.prime]

theorem modEq_rightSide_iff {x y : ℕ} :
    y ^ 2 ≡ x ^ 3 + c.equation.a * x + c.equation.b [MOD c.prime] ↔
      (y : ZMod c.equation.p) ^ 2 =
        (x : ZMod c.equation.p) ^ 3 + c.equation.a * x + c.equation.b := by
  rw [prime, ← ZMod.natCast_eq_natCast_iff]
  push_cast
  rfl

theorem exists_pointOfBytes_iff {b : Bytes} :
    (∃ P, c.pointOfBytes b = .ok P) ↔ c.SpellsPoint b := by
  constructor
  · rintro ⟨P, h⟩
    obtain ⟨x, y, -, hx, hcontains, rfl⟩ := c.exists_of_pointOfBytes h
    refine ⟨by simp [add_comm], ?_, ?_, ?_⟩
    · rw [List.head?_cons, Option.some.injEq, Option.some.injEq]
      exact tag_eq_or y
    · rw [List.tail_cons, c.toNat_coordinate hx]
      exact hx
    · rw [List.tail_cons, c.toNat_coordinate hx]
      exact ⟨y, c.modEq_rightSide_iff.2 ((c.equation.contains_affine_iff).1 hcontains).2.2⟩
  · rintro ⟨hlength, htag, hx, y, hy⟩
    rcases b with _ | ⟨t, xs⟩
    · exact absurd htag (by simp)
    rw [List.tail_cons] at hx hy
    rw [List.head?_cons, Option.some.injEq, Option.some.injEq] at htag
    rw [modEq_rightSide_iff] at hy
    obtain ⟨z, hlift, -⟩ := c.exists_liftX hx ((c.isSquare_rightSide_iff _).2 ⟨y, hy⟩)
      (t = oddTag)
    refine ⟨.affine (Bytes.toNat xs) z, ?_⟩
    rw [pointOfBytes, if_neg (not_not.2 hlength), if_neg, if_neg (not_le.2 hx)]
    · exact hlift
    · rintro ⟨heven, hodd⟩
      exact htag.elim heven hodd

/-- What is read is the point that the coordinate and the tag say, and it is written as it was
read. -/
theorem exists_eq_affine_of_pointOfBytes {b : Bytes} {P : Point} (h : c.pointOfBytes b = .ok P) :
    ∃ y, P = .affine (Bytes.toNat b.tail) y ∧ c.equation.Contains P ∧
      (y % 2 = 1 ↔ b.head? = some oddTag) ∧ c.encodePoint P = .ok b := by
  obtain ⟨x, y, rfl, hx, hcontains, rfl⟩ := c.exists_of_pointOfBytes h
  refine ⟨y, by rw [List.tail_cons, c.toNat_coordinate hx], hcontains, ?_,
    c.encodePoint_affine hx y⟩
  rw [List.head?_cons, Option.some.injEq]
  exact (tag_eq_oddTag_iff y).symm

/-- **The square test loses no point**, although it leaves zero out. -/
theorem isSquare_rightSide_iff_contains {x : ℕ} (hx : x < c.prime) :
    c.isSquare (c.rightSide x) = true ↔ ∃ y, c.equation.Contains (.affine x y) := by
  constructor
  · intro hsq
    obtain ⟨y, -, hcontains, -⟩ := c.exists_liftX hx hsq true
    exact ⟨y, hcontains⟩
  · rintro ⟨y, hcontains⟩
    exact (c.isSquare_rightSide_iff x).2 ⟨y, ((c.equation.contains_affine_iff).1 hcontains).2.2⟩

/-- **The compressed form is exact.**  Every finite point has one, of one byte more than a
coordinate, from which it is read back.  Of the byte strings exactly those are read that
`SpellsPoint` describes; the point lies on the curve, over the coordinate that is written, its
parity is the one that the tag says, and it is written as it was read.  All others are refused, and
the square root, which the square test guards, never fails.  The test leaves zero out, but no point
has zero as its second coordinate. -/
theorem compressed_form_exact :
    (∀ P, c.equation.Contains P → P ≠ .infinity →
      ∃ b, c.encodePoint P = .ok b ∧ b.length = 1 + c.fieldWidth ∧
        ∀ d : Datum, d.bytes? = some b → c.decodePoint d = .ok P) ∧
    (∀ (d : Datum) (b : Bytes), d.bytes? = some b →
      ((∃ P, c.decodePoint d = .ok P) ↔ c.SpellsPoint b) ∧
      (∀ P, c.decodePoint d = .ok P →
        ∃ y, P = .affine (Bytes.toNat b.tail) y ∧ c.equation.Contains P ∧
          (y % 2 = 1 ↔ b.head? = some 3) ∧ c.encodePoint P = .ok b) ∧
      (¬ c.SpellsPoint b → ∃ r, c.decodePoint d = .error (.refused r))) ∧
    (∀ (d : Datum) (k : Curve), c.decodePoint d ≠ .error (.broken (.noSquareRoot k))) ∧
    (∀ x, ¬ c.equation.Contains (.affine x 0)) ∧
    (∀ x < c.prime,
      c.isSquare (c.rightSide x) = true ↔ ∃ y, c.equation.Contains (.affine x y)) := by
  refine ⟨?_, ?_, ?_, c.not_contains_zero, ?_⟩
  · intro P hP hne
    obtain ⟨b, hb, hlength⟩ := c.exists_encodePoint hP hne
    refine ⟨b, hb, hlength, fun d hd => ?_⟩
    rw [c.decodePoint_eq hd]
    exact c.pointOfBytes_eq_ok_iff.2 ⟨hP, hb⟩
  · intro d b hd
    rw [c.decodePoint_eq hd]
    refine ⟨c.exists_pointOfBytes_iff, fun P => c.exists_eq_affine_of_pointOfBytes, fun h => ?_⟩
    rcases c.pointOfBytes_cases b with ⟨x, y, hcontains, rfl⟩ | hr
    · exact absurd (c.exists_pointOfBytes_iff.1 ⟨_, c.pointOfBytes_encoding hcontains⟩) h
    · exact hr
  · intro d k h
    rcases c.decodePoint_cases d with ⟨b, P, -, -, -, hP⟩ | ⟨r, hr⟩
    · rw [hP] at h
      cases h
    · rw [hr] at h
      cases h
  · exact fun x hx => c.isSquare_rightSide_iff_contains hx

theorem compressed_form_exact_generator :
    ∃ b, secp192r1.encodePoint secp192r1.generator = .ok b ∧ b.length = 25 ∧
      secp192r1.decodePoint (.bytes b) = .ok secp192r1.generator ∧ secp192r1.SpellsPoint b ∧
      ∃ r, secp192r1.decodePoint (.bytes []) = .error (.refused r) := by
  obtain ⟨hwrite, hread, -⟩ := compressed_form_exact secp192r1
  obtain ⟨b, hb, hlength, hdecode⟩ := hwrite _ secp192r1.contains_generator (by decide)
  have hG := hdecode (.bytes b) rfl
  refine ⟨b, hb, hlength, hG, (hread (.bytes b) b rfl).1.1 ⟨_, hG⟩, ?_⟩
  exact (hread (.bytes []) [] rfl).2.2 fun h => absurd h.1 (by decide)

end Curve

end CurveLock

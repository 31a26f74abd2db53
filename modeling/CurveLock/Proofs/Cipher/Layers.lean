import CurveLock.Proofs.Cipher.Steps

/-!
# Layers of keys

Putting a key on a ciphertext multiplies its point by the key, and taking it off by the inverse of
the key.  After any number of such layers the point has been multiplied by the product of all these
factors modulo the order of the group (`Layer.exists_applyAll`), which no order of the layers
changes.  The order is a prime, so no factor is zero and no layer ever meets the point at infinity.

* `KeyChange`, `Layer`: a key that is put on or taken off, and the cipher that does so;
* `Start`: a ciphertext, or a plaintext with the cipher that encrypts it;
* `Start.layering`: the law.
-/

namespace CurveLock

/-! ### Keys on and off -/

/-- Whether a key is put on or taken off. -/
inductive Direction where
  | on
  | off
  deriving DecidableEq, Repr

/-- The other direction. -/
def Direction.opposite : Direction → Direction
  | on => off
  | off => on

/-- A key that is put on or taken off. -/
structure KeyChange (c : Curve) where
  key : Key c
  direction : Direction
  deriving DecidableEq, Repr

namespace KeyChange

variable {c : Curve}

/-- The factor by which the point is multiplied. -/
def factor (x : KeyChange c) : ZMod c.order :=
  match x.direction with
  | .on => x.key.val
  | .off => (x.key.val : ZMod c.order)⁻¹

/-- The product of all factors, modulo the order. -/
def product (xs : List (KeyChange c)) : ZMod c.order := (xs.map factor).prod

theorem factor_ne_zero (x : KeyChange c) : x.factor ≠ 0 := by
  rcases x with ⟨key, _ | _⟩
  · exact Cipher.cast_key_ne_zero key
  · exact inv_ne_zero (Cipher.cast_key_ne_zero key)

theorem product_perm {xs ys : List (KeyChange c)} (h : xs.Perm ys) : product xs = product ys :=
  (h.map factor).prod_eq

theorem factor_mul_opposite (key : Key c) (way : Direction) :
    factor ⟨key, way⟩ * factor ⟨key, way.opposite⟩ = 1 := by
  cases way
  · exact mul_inv_cancel₀ (Cipher.cast_key_ne_zero key)
  · exact inv_mul_cancel₀ (Cipher.cast_key_ne_zero key)

/-- A key that is put on and taken off again, or the other way round, leaves no trace. -/
theorem product_cancel (key : Key c) (way : Direction) (xs ys zs : List (KeyChange c)) :
    product (xs ++ ⟨key, way⟩ :: ys ++ ⟨key, way.opposite⟩ :: zs) = product (xs ++ ys ++ zs) := by
  have hcancel := factor_mul_opposite key way
  simp only [product, List.map_append, List.map_cons, List.prod_append, List.prod_cons]
  linear_combination (xs.map factor).prod * (ys.map factor).prod * (zs.map factor).prod * hcancel

end KeyChange

/-! ### Layers -/

/-- A step on a ciphertext: a cipher, whether it puts its key on or takes it off, and the scratch in
which it works. -/
structure Layer (c : Curve) where
  cipher : Cipher c
  made : cipher.Made
  direction : Direction
  scratch : Scratch

namespace Layer

variable {c : Curve}

/-- The change of keys that a layer is. -/
def change (l : Layer c) : KeyChange c := ⟨l.cipher.key, l.direction⟩

/-- What a layer makes of a ciphertext. -/
def apply (l : Layer c) (d : Datum) : Except Failure Bytes :=
  match l.direction with
  | .on => (l.cipher.reEncrypt d).result l.scratch
  | .off => (l.cipher.decrypt d).result l.scratch

/-- What several layers make of a ciphertext, one after the other. -/
def applyAll : List (Layer c) → Datum → Except Failure Bytes
  | [], d => d.byteString
  | l :: ls, d => do
    let b ← l.apply d
    applyAll ls (.bytes b)

/-- **One layer multiplies the point by its factor.** -/
theorem exists_apply (l : Layer c) {d : Datum} {A : c.equation.Group} (hA : A ≠ 0)
    (hd : c.decodePoint d = .ok (c.equation.coordinates A)) :
    ∃ b, l.apply d = .ok b ∧
      c.encodePoint (c.equation.coordinates (l.change.factor • A)) = .ok b := by
  rcases l with ⟨cipher, made, _ | _, s⟩
  · obtain ⟨b, hb, hrun⟩ := cipher.exists_run_reEncrypt hA hd
    exact ⟨b, Metered.result_of_forall_run hrun s, hb⟩
  · obtain ⟨b, hb, hrun⟩ := made.exists_run_decrypt hA hd
    exact ⟨b, Metered.result_of_forall_run hrun s, hb⟩

/-- **Layers multiply the point by the product of their factors.** -/
theorem exists_applyAll (ls : List (Layer c)) :
    ∀ {d : Datum} {A : c.equation.Group}, A ≠ 0 →
      c.decodePoint d = .ok (c.equation.coordinates A) →
      ∃ b, applyAll ls d = .ok b ∧
        c.encodePoint (c.equation.coordinates (KeyChange.product (ls.map change) • A)) = .ok b := by
  induction ls with
  | nil =>
    intro d A hA hd
    obtain ⟨-, -, -, b, hbytes, hencode⟩ := c.exists_of_decodePoint hd
    refine ⟨b, ?_, ?_⟩
    · rw [applyAll, Datum.byteString, hbytes]
    · rw [KeyChange.product, List.map_nil, List.map_nil, List.prod_nil, one_smul, hencode]
  | cons l ls ih =>
    intro d A hA hd
    obtain ⟨b, hb, hencode⟩ := l.exists_apply hA hd
    -- the next layers read what this one has written
    obtain ⟨b', hb', hencode'⟩ :=
      ih (smul_ne_zero l.change.factor_ne_zero hA) (c.decodePoint_of_encodePoint hencode)
    refine ⟨b', ?_, ?_⟩
    · rw [applyAll, hb]
      exact hb'
    · rw [smul_smul, mul_comm] at hencode'
      exact hencode'

end Layer

/-! ### The law -/

/-- What the layers start from. -/
inductive Start (c : Curve) where
  /-- A ciphertext. -/
  | ciphertext (d : Datum)
  /-- A plaintext, with the cipher that encrypts it and the scratch in which it does so. -/
  | plaintext (cipher : Cipher c) (scratch : Scratch) (m : Datum)

namespace Start

variable {c : Curve}

/-- The change of keys that the start itself is: encrypting puts a key on. -/
def changes : Start c → List (KeyChange c)
  | ciphertext _ => []
  | plaintext cipher _ _ => [⟨cipher.key, .on⟩]

/-- The point from which the layers start: the one that is read, or the hashed plaintext. -/
def Over (P : Point) : Start c → Prop
  | ciphertext d => c.decodePoint d = .ok P
  | plaintext _ _ m => c.Hashes m P

/-- What the layers make of the start. -/
def run (ls : List (Layer c)) : Start c → Except Failure Bytes
  | ciphertext d => Layer.applyAll ls d
  | plaintext cipher s m => do
    let b ← (cipher.encrypt m).result s
    Layer.applyAll ls (.bytes b)

theorem Over.exists_coordinates {start : Start c} {P : Point} (h : start.Over P) :
    ∃ A : c.equation.Group, A ≠ 0 ∧ P = c.equation.coordinates A := by
  cases start with
  | ciphertext d =>
    obtain ⟨A, hA, hP, -⟩ := c.exists_of_decodePoint h
    exact ⟨A, hA, hP⟩
  | plaintext cipher s m => exact Curve.Hashes.exists_coordinates h

/-- **The layers multiply the point of the start by the product of all factors.** -/
theorem exists_run {start : Start c} {A : c.equation.Group} (hA : A ≠ 0)
    (h : start.Over (c.equation.coordinates A)) (ls : List (Layer c)) :
    ∃ b, start.run ls = .ok b ∧ c.encodePoint (c.equation.coordinates
      (KeyChange.product (start.changes ++ ls.map Layer.change) • A)) = .ok b := by
  cases start with
  | ciphertext d => exact Layer.exists_applyAll ls hA h
  | plaintext cipher s m =>
    obtain ⟨b, hencode, hrun⟩ := cipher.exists_run_encrypt hA h
    have hkey := Cipher.cast_key_ne_zero cipher.key
    obtain ⟨b', hb', hencode'⟩ :=
      Layer.exists_applyAll ls (smul_ne_zero hkey hA) (c.decodePoint_of_encodePoint hencode)
    refine ⟨b', ?_, ?_⟩
    · rw [run, Metered.result_of_forall_run hrun]
      exact hb'
    · rw [smul_smul, mul_comm] at hencode'
      exact hencode'

theorem run_eq {start : Start c} {P : Point} (h : start.Over P) (ls : List (Layer c)) :
    start.run ls = c.encodePoint
      (c.smul (KeyChange.product (start.changes ++ ls.map Layer.change)).val P) := by
  obtain ⟨A, hA, rfl⟩ := h.exists_coordinates
  obtain ⟨b, hb, hencode⟩ := exists_run hA h ls
  rw [hb, c.smul_coordinates, Int.cast_natCast, ZMod.natCast_zmod_val, hencode]

variable (c) in
/-- **The law of layers.**  From a ciphertext that is read, or from a plaintext that is hashed, any
list of layers succeeds and yields the encoding of the start's point multiplied by the product of
the factors.  Starts with the same point and the same changes of keys in any order yield the same,
and a key that is put on and taken off again, or the other way round, wherever in the list this is
done, leaves no trace. -/
theorem layering :
    (∀ (start : Start c) (P : Point), start.Over P → ∀ ls : List (Layer c),
      ∃ b, start.run ls = .ok b ∧ c.encodePoint
        (c.smul (KeyChange.product (start.changes ++ ls.map Layer.change)).val P) = .ok b) ∧
    (∀ (start start' : Start c) (P : Point), start.Over P → start'.Over P →
      ∀ ls ls' : List (Layer c),
        (start.changes ++ ls.map Layer.change).Perm (start'.changes ++ ls'.map Layer.change) →
        start.run ls = start'.run ls') ∧
    (∀ (start : Start c) (P : Point), start.Over P → ∀ (ls : List (Layer c)) (key : Key c)
      (way : Direction) (xs ys zs : List (KeyChange c)),
        start.changes ++ ls.map Layer.change =
          xs ++ ⟨key, way⟩ :: ys ++ ⟨key, way.opposite⟩ :: zs →
        start.run ls = c.encodePoint (c.smul (KeyChange.product (xs ++ ys ++ zs)).val P)) := by
  refine ⟨?_, ?_, ?_⟩
  · intro start P h ls
    obtain ⟨A, hA, rfl⟩ := h.exists_coordinates
    obtain ⟨b, hb, -⟩ := exists_run hA h ls
    exact ⟨b, hb, (run_eq h ls).symm.trans hb⟩
  · intro start start' P h h' ls ls' hperm
    rw [run_eq h, run_eq h', KeyChange.product_perm hperm]
  · intro start P h ls key way xs ys zs heq
    rw [run_eq h, heq, KeyChange.product_cancel]

theorem layering_generator :
    ∃ (cipher : Cipher .secp192r1) (made : cipher.Made) (b : Bytes), cipher.key.val = 2 ∧
      Curve.secp192r1.encodePoint Curve.secp192r1.generator = .ok b ∧
      (ciphertext (.bytes b)).run [⟨cipher, made, .on, {}⟩, ⟨cipher, made, .off, {}⟩] = .ok b := by
  obtain ⟨cipher, made, hkey⟩ :=
    Cipher.exists_made (c := .secp192r1) ⟨2, by decide, by decide +kernel⟩
  obtain ⟨G, hG⟩ := Curve.secp192r1.equation.contains_iff.1 Curve.secp192r1.contains_generator
  have hne : G ≠ 0 := by
    rintro rfl
    cases hG
  obtain ⟨b, hb⟩ := Curve.secp192r1.exists_encodePoint_coordinates hne
  have hover := Curve.secp192r1.decodePoint_of_encodePoint hb
  have hrun := (layering .secp192r1).2.2 (.ciphertext (.bytes b)) _ hover
    [⟨cipher, made, .on, {}⟩, ⟨cipher, made, .off, {}⟩] cipher.key .on [] [] [] rfl
  refine ⟨cipher, made, b, by rw [hkey], hG ▸ hb, hrun.trans ?_⟩
  rw [Curve.smul_coordinates, Int.cast_natCast, ZMod.natCast_zmod_val]
  exact (congrArg _ (congrArg _ (one_smul _ G))).trans hb

end Start

end CurveLock

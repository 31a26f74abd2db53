import CurveLock.Proofs.Cipher.Collision

/-!
# Matching double encryptions

Two parties encrypt their own plaintexts and then the other's ciphertexts, each with its own key
(`Cipher.exchange`).  Multiplication by the product of the keys is injective on the group and so is
the encoding, so the results match exactly where the hashed points are the same (`Cipher.matching`).
-/

namespace CurveLock

namespace Cipher

variable {c : Curve}

/-- A plaintext encrypted with one cipher and then with another, each in its own scratch. -/
def doubly (first second : Cipher c) (s s' : Scratch) (m : Datum) : Except Failure Bytes := do
  let e ← (first.encrypt m).result s
  (second.reEncrypt (.bytes e)).result s'

/-- A list of plaintexts encrypted with one cipher, and the list of ciphertexts then with
another. -/
def exchange (first second : Cipher c) (s s' : Scratch) (ms : List Datum) :
    Except Failure (List Bytes) := do
  let es ← (ms.mapM first.encrypt).result s
  (es.mapM fun e => second.reEncrypt (.bytes e)).result s'

/-- What both keys make of a point. -/
def bothKeys (first second : Cipher c) (P : Point) : Except Failure Bytes :=
  c.encodePoint (c.smul (first.key.val * second.key.val) P)

theorem bothKeys_comm (first second : Cipher c) (P : Point) :
    bothKeys first second P = bothKeys second first P := by
  rw [bothKeys, bothKeys, Int.mul_comm]

theorem bothKeys_coordinates (first second : Cipher c) (A : c.equation.Group) :
    bothKeys first second (c.equation.coordinates A) = c.encodePoint (c.equation.coordinates
      ((second.key.val : ZMod c.order) • (first.key.val : ZMod c.order) • A)) := by
  rw [bothKeys, c.smul_coordinates, smul_smul]
  push_cast
  rw [mul_comm]

/-- **Both keys together lose nothing.** -/
theorem bothKeys_injective (first second : Cipher c) {A B : c.equation.Group} {b : Bytes}
    (hA : bothKeys first second (c.equation.coordinates A) = .ok b)
    (hB : bothKeys first second (c.equation.coordinates B) = .ok b) : A = B := by
  rw [bothKeys_coordinates] at hA hB
  exact smul_right_injective _ (cast_key_ne_zero first.key)
    (second.eq_of_encodePoint_smul hA hB)

theorem exists_encryptions (first second : Cipher c) {m : Datum} {P : Point}
    (h : c.Hashes m P) :
    ∃ e b, (∀ s, ∃ s', (first.encrypt m).run s = .ok e s') ∧
      (∀ s, ∃ s', (second.reEncrypt (.bytes e)).run s = .ok b s') ∧
      bothKeys first second P = .ok b := by
  obtain ⟨A, hA, rfl⟩ := h.exists_coordinates
  obtain ⟨e, he, hencrypt⟩ := first.exists_run_encrypt hA h
  obtain ⟨b, hb, hreEncrypt⟩ := second.exists_run_reEncrypt
    (smul_ne_zero (cast_key_ne_zero first.key) hA) (c.decodePoint_of_encodePoint he)
  exact ⟨e, b, hencrypt, hreEncrypt, (bothKeys_coordinates first second A).trans hb⟩

theorem doubly_eq (first second : Cipher c) (s s' : Scratch) {m : Datum} {P : Point}
    (h : c.Hashes m P) : doubly first second s s' m = bothKeys first second P := by
  obtain ⟨e, b, hencrypt, hreEncrypt, hboth⟩ := exists_encryptions first second h
  rw [doubly, Metered.result_of_forall_run hencrypt, hboth]
  exact Metered.result_of_forall_run hreEncrypt s'

theorem exists_bothKeys_iff (first second : Cipher c) (s s' : Scratch) {m : Datum}
    (h : ∃ P, c.Hashes m P) {b : Bytes} :
    (∃ P, c.Hashes m P ∧ bothKeys first second P = .ok b) ↔
      doubly first second s s' m = .ok b := by
  constructor
  · rintro ⟨P, hP, hb⟩
    exact (doubly_eq first second s s' hP).trans hb
  · intro hb
    obtain ⟨P, hP⟩ := h
    exact ⟨P, hP, (doubly_eq first second s s' hP).symm.trans hb⟩

/-- **The exchanged list consists of what both keys make of the hashed plaintexts.** -/
theorem exists_exchange (first second : Cipher c) (ms : List Datum)
    (h : ∀ m ∈ ms, ∃ P, c.Hashes m P) :
    ∃ bs, (∀ s s', exchange first second s s' ms = .ok bs) ∧
      ∀ b, b ∈ bs ↔ ∃ m ∈ ms, ∃ P, c.Hashes m P ∧ bothKeys first second P = .ok b := by
  -- both passes in one induction, because the second reads what the first has written
  obtain ⟨es, bs, hencrypt, hreEncrypt, hmem⟩ : ∃ es bs,
      List.Forall₂ (fun m e => ∀ s, ∃ s', (first.encrypt m).run s = .ok e s') ms es ∧
      List.Forall₂ (fun e b => ∀ s, ∃ s', (second.reEncrypt (.bytes e)).run s = .ok b s') es bs ∧
      ∀ b, b ∈ bs ↔ ∃ m ∈ ms, ∃ P, c.Hashes m P ∧ bothKeys first second P = .ok b := by
    induction ms with
    | nil => exact ⟨[], [], .nil, .nil, by simp⟩
    | cons m ms ih =>
      obtain ⟨P, hP⟩ := h m List.mem_cons_self
      obtain ⟨e, b, he, hb, hboth⟩ := exists_encryptions first second hP
      obtain ⟨es, bs, hes, hbs, hmem⟩ := ih fun m' hm' => h m' (List.mem_cons_of_mem m hm')
      refine ⟨e :: es, b :: bs, .cons he hes, .cons hb hbs, fun b' => ?_⟩
      rw [List.mem_cons, hmem, List.exists_mem_cons_iff]
      refine or_congr_left ⟨?_, ?_⟩
      · rintro rfl
        exact ⟨P, hP, hboth⟩
      · rintro ⟨Q, hQ, hboth'⟩
        rw [hQ.unique hP] at hboth'
        exact Except.ok.inj (hboth'.symm.trans hboth)
  refine ⟨bs, fun s s' => ?_, hmem⟩
  rw [exchange, Metered.result_of_forall_run (Metered.run_mapM hencrypt)]
  exact Metered.result_of_forall_run (Metered.run_mapM hreEncrypt) s'

/-- What both keys make of two hashed plaintexts is the same only if the points are. -/
theorem eq_of_bothKeys_eq (first second : Cipher c) {x y : Datum} {P Q : Point}
    (hP : c.Hashes x P) (hQ : c.Hashes y Q) {b : Bytes} (hPb : bothKeys first second P = .ok b)
    (hQb : bothKeys first second Q = .ok b) : P = Q := by
  obtain ⟨A, -, rfl⟩ := hP.exists_coordinates
  obtain ⟨B, -, rfl⟩ := hQ.exists_coordinates
  rw [bothKeys_injective first second hPb hQb]

/-- **Double encryptions match exactly where the hashed points are the same.**  This holds of two
plaintexts, encrypted in one order of the ciphers and in the other, and so two exchanged lists have
in common what both keys make of the points to which plaintexts of both lists are hashed. -/
theorem matching (first second : Cipher c) :
    (∀ (x y : Datum) (P Q : Point), c.Hashes x P → c.Hashes y Q → ∀ s s' t t' : Scratch,
      ∃ e f, doubly first second s s' x = .ok e ∧ doubly second first t t' y = .ok f ∧
        (e = f ↔ P = Q)) ∧
    (∀ xs ys : List Datum, (∀ x ∈ xs, ∃ P, c.Hashes x P) → (∀ y ∈ ys, ∃ P, c.Hashes y P) →
      ∀ s s' t t' : Scratch,
      ∃ es fs, exchange first second s s' xs = .ok es ∧ exchange second first t t' ys = .ok fs ∧
        (∀ b, b ∈ es ↔ ∃ x ∈ xs, doubly first second s s' x = .ok b) ∧
        (∀ b, b ∈ fs ↔ ∃ y ∈ ys, doubly second first t t' y = .ok b) ∧
        ∀ b, b ∈ es ∧ b ∈ fs ↔ ∃ P, (∃ x ∈ xs, c.Hashes x P) ∧ (∃ y ∈ ys, c.Hashes y P) ∧
          c.encodePoint (c.smul (first.key.val * second.key.val) P) = .ok b) := by
  refine ⟨?_, ?_⟩
  · intro x y P Q hP hQ s s' t t'
    obtain ⟨-, e, -, -, he⟩ := exists_encryptions first second hP
    obtain ⟨-, f, -, -, hf⟩ := exists_encryptions second first hQ
    refine ⟨e, f, (doubly_eq first second s s' hP).trans he,
      (doubly_eq second first t t' hQ).trans hf, ?_⟩
    rw [bothKeys_comm] at hf
    constructor
    · rintro rfl
      exact eq_of_bothKeys_eq first second hP hQ he hf
    · rintro rfl
      exact Except.ok.inj (he.symm.trans hf)
  · intro xs ys hxs hys s s' t t'
    obtain ⟨es, hes, hmem⟩ := exists_exchange first second xs hxs
    obtain ⟨fs, hfs, hmem'⟩ := exists_exchange second first ys hys
    refine ⟨es, fs, hes s s', hfs t t', ?_, ?_, ?_⟩
    · intro b
      rw [hmem]
      exact exists_congr fun x => and_congr_right fun hx =>
        exists_bothKeys_iff first second s s' (hxs x hx)
    · intro b
      rw [hmem']
      exact exists_congr fun y => and_congr_right fun hy =>
        exists_bothKeys_iff second first t t' (hys y hy)
    · intro b
      rw [hmem, hmem']
      constructor
      · rintro ⟨⟨x, hx, P, hP, hPb⟩, y, hy, Q, hQ, hQb⟩
        rw [bothKeys_comm] at hQb
        obtain rfl := eq_of_bothKeys_eq first second hP hQ hPb hQb
        exact ⟨P, ⟨x, hx, hP⟩, ⟨y, hy, hQ⟩, hPb⟩
      · rintro ⟨P, ⟨x, hx, hP⟩, ⟨y, hy, hQ⟩, hPb⟩
        exact ⟨⟨x, hx, P, hP, hPb⟩, y, hy, P, hQ, (bothKeys_comm second first P).trans hPb⟩

theorem matching_passedOver :
    ∃ (first second : Cipher .secp192r1) (e f : Bytes) (es fs : List Bytes),
      first.key.val = 2 ∧ second.key.val = 3 ∧
      doubly first second {} {} (.bytes [0x61]) = .ok e ∧
      doubly second first {} {} (.bytes (Bytes.ofNat passedOver)) = .ok f ∧ e = f ∧
      exchange first second {} {} [.bytes [0x61]] = .ok es ∧
      exchange second first {} {} [.bytes (Bytes.ofNat passedOver)] = .ok fs ∧
      e ∈ es ∧ e ∈ fs := by
  obtain ⟨first, -, hfirst⟩ := exists_made (c := .secp192r1) ⟨2, by decide, by decide +kernel⟩
  obtain ⟨second, -, hsecond⟩ := exists_made (c := .secp192r1) ⟨3, by decide, by decide +kernel⟩
  obtain ⟨P, ⟨s, hs⟩, s', hs'⟩ := exists_common_hash
  have hx : Curve.secp192r1.Hashes (.bytes [0x61]) P := ⟨_, _, _, rfl, hs⟩
  have hy : Curve.secp192r1.Hashes (.bytes (Bytes.ofNat passedOver)) P := ⟨_, _, _, rfl, hs'⟩
  obtain ⟨e, f, he, hf, hef⟩ := (matching first second).1 _ _ P P hx hy {} {} {} {}
  obtain ⟨es, fs, hes, hfs, hmem, hmem', -⟩ := (matching first second).2
    [.bytes [0x61]] [.bytes (Bytes.ofNat passedOver)]
    (fun x h => ⟨P, List.mem_singleton.1 h ▸ hx⟩) (fun y h => ⟨P, List.mem_singleton.1 h ▸ hy⟩)
    {} {} {} {}
  obtain rfl := hef.2 rfl
  exact ⟨first, second, e, e, es, fs, by rw [hfirst], by rw [hsecond], he, hf, rfl, hes, hfs,
    (hmem e).2 ⟨_, List.mem_singleton_self _, he⟩, (hmem' e).2 ⟨_, List.mem_singleton_self _, hf⟩⟩

end Cipher

end CurveLock

import CurveLock.Proofs.Curve.Compressed
import CurveLock.Proofs.Scratch

/-!
# Pairs of points

A value is read as two points exactly when it holds two byte strings and nothing else, and both are
compressed forms (`Curve.decodePair_eq_ok_iff`).  Everything else is refused
(`Curve.decodePair_cases`).
-/

namespace CurveLock

namespace Datum

/-- Two byte strings as one value. -/
def ofPair (pq : Bytes × Bytes) : Datum := tuple [bytes pq.1, bytes pq.2]

/-- A value that holds the two byte strings and nothing else, as one collection or another. -/
def Holds (d : Datum) (pq : Bytes × Bytes) : Prop :=
  ∃ d₁ d₂, d.pair? = some (d₁, d₂) ∧ d₁.bytes? = some pq.1 ∧ d₂.bytes? = some pq.2

theorem holds_ofPair (pq : Bytes × Bytes) : (ofPair pq).Holds pq := ⟨_, _, rfl, rfl, rfl⟩

end Datum

namespace Curve

variable (c : Curve)

theorem decodePair_eq_ok_iff {d : Datum} {P Q : Point} : c.decodePair d = .ok (P, Q) ↔
    ∃ d₁ d₂, d.pair? = some (d₁, d₂) ∧ c.decodePoint d₁ = .ok P ∧ c.decodePoint d₂ = .ok Q := by
  rcases hpair : d.pair? with _ | ⟨d₁, d₂⟩
  · rw [decodePair, hpair]
    constructor
    · intro h
      cases h
    · rintro ⟨d₁, d₂, h, -⟩
      cases h
  · simp only [decodePair, hpair, Metered.except_bind_eq_ok_iff]
    constructor
    · rintro ⟨P', hP, Q', hQ, h⟩
      cases h
      exact ⟨d₁, d₂, rfl, hP, hQ⟩
    · rintro ⟨_, _, h, hP, hQ⟩
      cases h
      exact ⟨P, hP, Q, hQ, rfl⟩

/-- Reading a pair fails in no other way than by refusing what it is given. -/
theorem decodePair_cases (d : Datum) :
    (∃ P Q, c.decodePair d = .ok (P, Q)) ∨ ∃ r, c.decodePair d = .error (.refused r) := by
  rcases hpair : d.pair? with _ | ⟨d₁, d₂⟩
  · refine Or.inr ⟨.notAPair, ?_⟩
    rw [decodePair, hpair]
    rfl
  rcases c.decodePoint_cases d₁ with ⟨-, P, -, -, -, hP⟩ | ⟨r, hr⟩
  · rcases c.decodePoint_cases d₂ with ⟨-, Q, -, -, -, hQ⟩ | ⟨r, hr⟩
    · exact Or.inl ⟨P, Q, c.decodePair_eq_ok_iff.2 ⟨d₁, d₂, hpair, hP, hQ⟩⟩
    · refine Or.inr ⟨r, ?_⟩
      simp only [decodePair, hpair, hP, hr]
      rfl
  · refine Or.inr ⟨r, ?_⟩
    simp only [decodePair, hpair, hr]
    rfl

/-- What is read is a pair of points other than zero, and the compressed forms are held. -/
theorem exists_of_decodePair {d : Datum} {P Q : Point} (h : c.decodePair d = .ok (P, Q)) :
    ∃ A B : c.equation.Group, A ≠ 0 ∧ B ≠ 0 ∧ P = c.equation.coordinates A ∧
      Q = c.equation.coordinates B ∧ ∃ p q, d.Holds (p, q) ∧ c.encodePoint P = .ok p ∧
        c.encodePoint Q = .ok q := by
  obtain ⟨d₁, d₂, hpair, hP, hQ⟩ := c.decodePair_eq_ok_iff.1 h
  obtain ⟨A, hA, hPA, p, hp, hencode⟩ := c.exists_of_decodePoint hP
  obtain ⟨B, hB, hQB, q, hq, hencode'⟩ := c.exists_of_decodePoint hQ
  exact ⟨A, B, hA, hB, hPA, hQB, p, q, ⟨d₁, d₂, hpair, hp, hq⟩, hencode, hencode'⟩

theorem decodePair_of_holds {d : Datum} {p q : Bytes} (h : d.Holds (p, q))
    {A B : c.equation.Group} (hp : c.encodePoint (c.equation.coordinates A) = .ok p)
    (hq : c.encodePoint (c.equation.coordinates B) = .ok q) :
    c.decodePair d = .ok (c.equation.coordinates A, c.equation.coordinates B) := by
  obtain ⟨d₁, d₂, hpair, h₁, h₂⟩ := h
  refine c.decodePair_eq_ok_iff.2 ⟨d₁, d₂, hpair, ?_, ?_⟩
  · rw [c.decodePoint_eq h₁]
    exact c.pointOfBytes_eq_ok_iff.2 ⟨c.equation.contains_coordinates A, hp⟩
  · rw [c.decodePoint_eq h₂]
    exact c.pointOfBytes_eq_ok_iff.2 ⟨c.equation.contains_coordinates B, hq⟩

end Curve

end CurveLock

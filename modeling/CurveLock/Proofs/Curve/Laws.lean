import CurveLock.Call
import CurveLock.Proofs.Curve.Order
import CurveLock.Proofs.Datum

/-!
# The points are a module over the integers

Multiples and sums are asked for with values that are points of the curve (`Curve.Denotes`): the
base point, which is told apart from its coordinates, any other point, and infinity.  Such a call
always returns, and what it returns is again a point of the curve, the multiple or the sum
(`Curve.Denotes.run_mul`, `Curve.Denotes.run_add`).  Multiples and sums satisfy the laws of a module
(`Curve.ModuleLaws`), which they take from the group behind the coordinates.
-/

namespace CurveLock

/-! ### Points with their curve -/

namespace PlacedPoint

variable {c : Curve}

theorem smul_ofPoint (k : ℤ) {P : Point} (hP : c.equation.Contains P) :
    smul k (ofPoint c P) = ofPoint c (c.smul k P) := by
  cases P with
  | infinity =>
    have hzero := c.smul_coordinates k 0
    rw [smul_zero, c.equation.coordinates_zero] at hzero
    rw [hzero]
    rfl
  | affine x y => rfl

theorem add?_ofPoint (P Q : Point) :
    (ofPoint c P).add? (ofPoint c Q) = some (ofPoint c (c.add P Q)) := by
  cases P with
  | infinity => rfl
  | affine x y =>
    cases Q with
    | infinity => rfl
    | affine x' y' => exact if_pos rfl

theorem ofPoint_injective : Function.Injective (ofPoint c) := by
  intro P Q h
  cases P <;> cases Q <;> cases h <;> rfl

/-- Only the base point of the curve itself has the same place as a point of it. -/
theorem eq_of_ofPoint_generator_eq {d : Curve} {P : Point}
    (h : ofPoint d d.generator = ofPoint c P) : d = c := by
  cases P with
  | infinity => cases d <;> cases h
  | affine x y => cases d <;> exact (on.inj h).1

end PlacedPoint

namespace Curve

variable (c : Curve)

/-- The value is the point `P` of the curve. -/
structure Denotes (d : Datum) (P : Point) : Prop where
  placed : d.placed? = some (.ofPoint c P)
  contains : c.equation.Contains P

theorem denotes_base : c.Denotes (.base c) c.generator := ⟨rfl, c.contains_generator⟩

theorem denotes_point {P : Point} (hP : c.equation.Contains P) :
    c.Denotes (.point (.ofPoint c P)) P := ⟨rfl, hP⟩

variable {c}

/-- A value that is a point is the base point or carries its coordinates. -/
theorem Denotes.cases {d : Datum} {P : Point} (h : c.Denotes d P) :
    d = .point (.ofPoint c P) ∨ d = .base c ∧ P = c.generator := by
  have placed := h.placed
  cases d with
  | point P' =>
    obtain rfl := Option.some.inj placed
    exact Or.inl rfl
  | base c' =>
    have heq := Option.some.inj placed
    obtain rfl := PlacedPoint.eq_of_ofPoint_generator_eq heq
    exact Or.inr ⟨rfl, (PlacedPoint.ofPoint_injective heq).symm⟩
  | _ => cases placed

/-- Values that are points are equal when the points are. -/
theorem Denotes.same_iff {p q : Datum} {P Q : Point} (hp : c.Denotes p P) (hq : c.Denotes q Q) :
    p.same q = true ↔ P = Q := by
  have places : p.same q = (PlacedPoint.ofPoint c P == PlacedPoint.ofPoint c Q) := by
    rw [Datum.same.eq_def]
    rcases hp.cases with rfl | ⟨rfl, rfl⟩ <;> rcases hq.cases with rfl | ⟨rfl, rfl⟩ <;> rfl
  rw [places, beq_iff_eq, PlacedPoint.ofPoint_injective.eq_iff]

/-! ### The laws -/

variable (c) in
theorem add_coordinates (A B : c.equation.Group) :
    c.add (c.equation.coordinates A) (c.equation.coordinates B) = c.equation.coordinates (A + B) :=
  c.equation.add_coordinates A B

theorem contains_smul {P : Point} (hP : c.equation.Contains P) (a : ℤ) :
    c.equation.Contains (c.smul a P) := by
  obtain ⟨A, rfl⟩ := c.equation.contains_iff.1 hP
  rw [c.smul_coordinates]
  exact c.equation.contains_coordinates _

theorem contains_add {P Q : Point} (hP : c.equation.Contains P) (hQ : c.equation.Contains Q) :
    c.equation.Contains (c.add P Q) := by
  obtain ⟨A, rfl⟩ := c.equation.contains_iff.1 hP
  obtain ⟨B, rfl⟩ := c.equation.contains_iff.1 hQ
  rw [c.add_coordinates]
  exact c.equation.contains_coordinates _

variable (c)

/-- What makes the points of the curve a module over the integers, in which the order of the curve
annihilates every point and nothing else annihilates a finite one. -/
structure ModuleLaws : Prop where
  add_comm {P Q : Point} (hP : c.equation.Contains P) (hQ : c.equation.Contains Q) :
    c.add P Q = c.add Q P
  add_assoc {P Q R : Point} (hP : c.equation.Contains P) (hQ : c.equation.Contains Q)
    (hR : c.equation.Contains R) : c.add (c.add P Q) R = c.add P (c.add Q R)
  infinity_add (P : Point) : c.add .infinity P = P
  add_infinity (P : Point) : c.add P .infinity = P
  /-- Only the residue of the multiplier modulo the order matters. -/
  smul_congr (P : Point) {a b : ℤ} (h : a ≡ b [ZMOD c.order]) : c.smul a P = c.smul b P
  one_smul {P : Point} (hP : c.equation.Contains P) : c.smul 1 P = P
  smul_smul {P : Point} (hP : c.equation.Contains P) (a b : ℤ) :
    c.smul b (c.smul a P) = c.smul (a * b) P
  add_smul {P : Point} (hP : c.equation.Contains P) (a b : ℤ) :
    c.smul (a + b) P = c.add (c.smul a P) (c.smul b P)
  smul_add {P Q : Point} (hP : c.equation.Contains P) (hQ : c.equation.Contains Q) (a : ℤ) :
    c.smul a (c.add P Q) = c.add (c.smul a P) (c.smul a Q)
  smul_eq_infinity_iff {P : Point} (hP : c.equation.Contains P) (a : ℤ) :
    c.smul a P = .infinity ↔ P = .infinity ∨ (c.order : ℤ) ∣ a

/-- **The points of every curve are a module over the integers.** -/
theorem moduleLaws : c.ModuleLaws where
  add_comm hP hQ := by
    obtain ⟨A, rfl⟩ := c.equation.contains_iff.1 hP
    obtain ⟨B, rfl⟩ := c.equation.contains_iff.1 hQ
    rw [c.add_coordinates, c.add_coordinates, add_comm]
  add_assoc hP hQ hR := by
    obtain ⟨A, rfl⟩ := c.equation.contains_iff.1 hP
    obtain ⟨B, rfl⟩ := c.equation.contains_iff.1 hQ
    obtain ⟨C, rfl⟩ := c.equation.contains_iff.1 hR
    simp only [c.add_coordinates, add_assoc]
  infinity_add P := by cases P <;> rfl
  add_infinity P := by cases P <;> rfl
  smul_congr P a b h := by rw [smul, smul, h]
  one_smul hP := by
    obtain ⟨A, rfl⟩ := c.equation.contains_iff.1 hP
    rw [c.smul_coordinates, Int.cast_one, one_smul]
  smul_smul hP a b := by
    obtain ⟨A, rfl⟩ := c.equation.contains_iff.1 hP
    rw [c.smul_coordinates, c.smul_coordinates, c.smul_coordinates, smul_smul, Int.cast_mul,
      mul_comm]
  add_smul hP a b := by
    obtain ⟨A, rfl⟩ := c.equation.contains_iff.1 hP
    rw [c.smul_coordinates, c.smul_coordinates, c.smul_coordinates, c.add_coordinates, Int.cast_add,
      add_smul]
  smul_add hP hQ a := by
    obtain ⟨A, rfl⟩ := c.equation.contains_iff.1 hP
    obtain ⟨B, rfl⟩ := c.equation.contains_iff.1 hQ
    rw [c.add_coordinates, c.smul_coordinates, c.smul_coordinates, c.smul_coordinates,
      c.add_coordinates, smul_add]
  smul_eq_infinity_iff hP a := by
    obtain ⟨A, rfl⟩ := c.equation.contains_iff.1 hP
    rw [c.smul_coordinates, c.equation.coordinates_eq_infinity_iff,
      c.equation.coordinates_eq_infinity_iff, smul_eq_zero, ZMod.intCast_zmod_eq_zero_iff_dvd,
      or_comm]

/-! ### Calls -/

variable {c}

/-- **A multiple is asked for.** -/
theorem Denotes.run_mul {p : Datum} {P : Point} (hp : c.Denotes p P) (a : ℤ) (s : Scratch) :
    ∃ r, (Call.mul c p (.int a)).run.run s = .ok (.value r) { s with opCount := s.opCount + 1 } ∧
      c.Denotes r (c.smul a P) := by
  have product : ((PlacedPoint.ofPoint c P).mul a).run s =
      .ok (.ofPoint c (c.smul a P)) { s with opCount := s.opCount + 1 } := by
    rw [← PlacedPoint.smul_ofPoint a hp.contains]
    rfl
  have denotes := c.denotes_point (contains_smul hp.contains a)
  rcases hp.cases with rfl | ⟨rfl, rfl⟩
  · refine ⟨_, ?_, denotes⟩
    rw [Call.run, Datum.multiple_point_int, EStateM.run_bind, EStateM.run_bind, product]
    rfl
  · have unfolded : Datum.multiple c (.base c) (.int a) = Datum.multipleOfBase c c (.int a) := rfl
    rw [Call.run, unfolded, Datum.multipleOfBase, Datum.same_int]
    by_cases h1 : a = 1
    · -- multiplied by one it stays the base point
      subst h1
      refine ⟨.base c, rfl, ?_⟩
      rw [c.moduleLaws.one_smul hp.contains]
      exact c.denotes_base
    · refine ⟨_, ?_, denotes⟩
      rw [if_neg (by simpa using h1), Datum.multipleOfPoint_int, EStateM.run_bind, EStateM.run_bind,
        product]
      rfl

/-- **A sum is asked for.** -/
theorem Denotes.run_add {p q : Datum} {P Q : Point} (hp : c.Denotes p P) (hq : c.Denotes q Q)
    (s : Scratch) :
    ∃ r, (Call.add c p q).run.run s = .ok (.value r) { s with opCount := s.opCount + 1 } ∧
      c.Denotes r (c.add P Q) := by
  have coordinates (h : Datum.sum c p q =
      (do return .point (← PlacedPoint.sum c (.ofPoint c P) (.ofPoint c Q)))) :
      ∃ r, (Call.add c p q).run.run s = .ok (.value r) { s with opCount := s.opCount + 1 } ∧
        c.Denotes r (c.add P Q) := by
    refine ⟨_, ?_, c.denotes_point (contains_add hp.contains hq.contains)⟩
    have run : (PlacedPoint.sum c (.ofPoint c P) (.ofPoint c Q)).run s =
        .ok (.ofPoint c (c.add P Q)) { s with opCount := s.opCount + 1 } := by
      rw [PlacedPoint.sum, PlacedPoint.add?_ofPoint]
      rfl
    rw [Call.run, h, EStateM.run_bind, EStateM.run_bind, run]
    rfl
  -- only infinity added to the base point leaves it what it is; any other sum is found from
  -- coordinates
  rcases hp.cases with rfl | ⟨rfl, rfl⟩ <;> rcases hq.cases with rfl | ⟨rfl, rfl⟩
  · exact coordinates (by cases P <;> rfl)
  · cases P with
    | infinity => exact ⟨.base c, rfl, c.denotes_base⟩
    | affine x y => exact coordinates rfl
  · cases Q with
    | infinity =>
      refine ⟨.base c, rfl, ?_⟩
      rw [c.moduleLaws.add_infinity]
      exact c.denotes_base
    | affine x y => exact coordinates rfl
  · exact coordinates rfl

/-- **Multiples and sums are those of a module over the integers.**  Every point of the curve is a
value, infinity and the base point among them, and values are equal when the points are.  The
multiple of a point by any integer, also of the base point, and the sum of two points are returned
from every scratch, for one counted step, and are points of the curve.  They satisfy the laws of a
module. -/
theorem multiples_and_sums (c : Curve) :
    c.ModuleLaws ∧
    (∀ {P : Point}, c.equation.Contains P → c.Denotes (.point (.ofPoint c P)) P) ∧
    c.Denotes (.base c) c.generator ∧
    (∀ {p q : Datum} {P Q : Point}, c.Denotes p P → c.Denotes q Q → (p.same q = true ↔ P = Q)) ∧
    (∀ {p : Datum} {P : Point}, c.Denotes p P → ∀ (a : ℤ) (s : Scratch), ∃ r,
      (Call.mul c p (.int a)).run.run s = .ok (.value r) { s with opCount := s.opCount + 1 } ∧
      c.Denotes r (c.smul a P)) ∧
    (∀ (a : ℤ) (s : Scratch), ∃ r,
      (Call.baseMul c (.int a)).run.run s = .ok (.value r) { s with opCount := s.opCount + 1 } ∧
      c.Denotes r (c.smul a c.generator)) ∧
    ∀ {p q : Datum} {P Q : Point}, c.Denotes p P → c.Denotes q Q → ∀ s : Scratch, ∃ r,
      (Call.add c p q).run.run s = .ok (.value r) { s with opCount := s.opCount + 1 } ∧
      c.Denotes r (c.add P Q) :=
  ⟨c.moduleLaws, c.denotes_point, c.denotes_base, Denotes.same_iff, Denotes.run_mul,
    c.denotes_base.run_mul, Denotes.run_add⟩

theorem multiples_and_sums_wrapped :
    ∃ r t, (Call.mul .secp192r1 (.base .secp192r1) (.int (secp192r1.order + 2))).run.run {} =
        .ok (.value r) { opCount := 1 } ∧
      (Call.add .secp192r1 (.base .secp192r1) r).run.run {} = .ok (.value t) { opCount := 1 } ∧
      secp192r1.Denotes r (.affine
        0xdafebf5828783f2ad35534631588a3f629a70fb16982a888
        0xdd6bda0d993da0fa46b27bbc141b868f59331afa5c7e93ab) ∧
      secp192r1.Denotes t (secp192r1.smul 3 secp192r1.generator) := by
  obtain ⟨laws, -, base, -, mul, -, add⟩ := multiples_and_sums .secp192r1
  obtain ⟨r, hrun, hr⟩ := mul base (secp192r1.order + 2) {}
  obtain ⟨t, hrun', ht⟩ := add base hr {}
  have double : secp192r1.smul (secp192r1.order + 2) secp192r1.generator = .affine
      0xdafebf5828783f2ad35534631588a3f629a70fb16982a888
      0xdd6bda0d993da0fa46b27bbc141b868f59331afa5c7e93ab := by decide +kernel
  have residue : (secp192r1.order + 2 : ℤ) ≡ 2 [ZMOD secp192r1.order] := by
    simp [Int.ModEq]
  refine ⟨r, t, hrun, hrun', double ▸ hr, ?_⟩
  have triple := laws.add_smul base.contains 1 2
  rw [laws.one_smul base.contains, ← laws.smul_congr _ residue] at triple
  exact triple ▸ ht

end Curve

end CurveLock

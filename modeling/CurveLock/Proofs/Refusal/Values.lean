import CurveLock.Datum.Group
import CurveLock.Proofs.Refusal.Rules

/-!
# Reading values and computing with them refuses nothing

A value of a type that is not accepted, a number that is too large or a faulty template makes an
operation fail, but none of them is refused as an argument.  This holds of everything that is
computed after the first step is counted, and also of what is compared before it.

The lemmas are about the reasons `A` for which a result may be refused, whatever these are: there
are no refusals among the results.
-/

namespace CurveLock

variable {A : Rejection → Prop} {α β : Type}

theorem refusesOnly_mapM {f : α → Except Failure β} (h : ∀ x, RefusesOnly A (f x))
    (xs : List α) : RefusesOnly A (xs.mapM f) := by
  induction xs with
  | nil => simp
  | cons x xs ih => simp [h, ih]

namespace Datum

/-! ### Reading -/

@[simp] theorem refusesOnly_number (d : Datum) : RefusesOnly A d.number := by
  rw [number]
  split <;> simp

@[simp] theorem refusesOnly_byteString (d : Datum) : RefusesOnly A d.byteString := by
  rw [byteString]
  split <;> simp

@[simp] theorem refusesOnly_suffix (d : Datum) : RefusesOnly A d.suffix := by
  rw [suffix]
  split <;> simp

@[simp] theorem refusesOnly_byte (d : Datum) : RefusesOnly A d.byte := by
  simp only [byte, refusesOnly_bind_iff, refusesOnly_number, true_and]
  intro n _
  split_ifs <;> simp

@[simp] theorem refusesOnly_position (d : Datum) (size : Nat) :
    RefusesOnly A (d.position size) := by
  simp only [position, refusesOnly_bind_iff, refusesOnly_number, true_and]
  intro n _
  split_ifs <;> simp

@[simp] theorem refusesOnly_element (d i : Datum) : RefusesOnly A (d.element i) := by
  unfold element
  split
  · split
    · simp
    · split_ifs <;> simp
  · split
    · simp only [refusesOnly_bind_iff, refusesOnly_position, true_and]
      intro n _
      split <;> simp
    · simp

@[simp] theorem refusesOnly_zeros (n : Int) : RefusesOnly A (zeros n) := by
  unfold zeros
  split_ifs <;> simp

@[simp] theorem refusesOnly_collectedBytes (d : Datum) : RefusesOnly A d.collectedBytes := by
  unfold collectedBytes
  split <;> simp [refusesOnly_mapM]

@[simp] theorem refusesOnly_message (d : Datum) : RefusesOnly A d.message := by
  unfold message
  split <;> simp

/-! ### Comparing -/

@[simp] theorem refusesOnly_order? (a b : Datum) : RefusesOnly A (order? a b) := by
  induction a, b using order?.induct (motive_2 := fun s t => RefusesOnly A (orderItems s t)) with
  | case1 a b x y hb ha =>
    rw [order?.eq_def, ha, hb]
    exact refusesOnly_ok _
  | _ => simp [order?, orderItems, *]

@[simp] theorem refusesOnly_isLess (a b : Datum) : RefusesOnly A (a.isLess b) := by
  simp [isLess]

@[simp] theorem refusesOnly_isAtMost (a b : Datum) : RefusesOnly A (a.isAtMost b) := by
  simp [isAtMost]

@[simp] theorem refusesOnly_checkRange (d : Datum) : RefusesOnly A d.checkRange := by
  unfold checkRange
  split
  · split_ifs <;> simp
  · simp

end Datum

/-! ### Templates -/

namespace Template

/-- However the values stand, filling in refuses for the reasons of `A` only. -/
def KeepsTo (A : Rejection → Prop) (x : Filling α) : Prop :=
  ∀ v, RefusesOnly A (x.run v)

@[simp] theorem keepsTo_pure (a : α) : KeepsTo A (pure a : Filling α) :=
  fun _ => refusesOnly_ok _

@[simp] theorem keepsTo_throw {f : Failure} (h : ∀ r, f ≠ .refused r) :
    KeepsTo A (throw f : Filling α) :=
  fun _ => refusesOnly_error_iff.2 fun r hr => absurd hr (h r)

@[simp] theorem keepsTo_lift {e : Except Failure α} (h : RefusesOnly A e) :
    KeepsTo A (liftM e : Filling α) := by
  intro v
  simpa using h

@[simp] theorem keepsTo_bind {x : Filling α} {f : α → Filling β} (hx : KeepsTo A x)
    (hf : ∀ a, KeepsTo A (f a)) : KeepsTo A (x >>= f) := by
  intro v
  rw [StateT.run_bind, refusesOnly_bind_iff]
  exact ⟨hx v, fun p _ => hf p.1 p.2⟩

@[simp] theorem keepsTo_map {x : Filling α} {f : α → β} (hx : KeepsTo A x) :
    KeepsTo A (f <$> x) := by
  intro v
  rw [StateT.run_map, refusesOnly_map_iff]
  exact hx v

@[simp] theorem keepsTo_modify (f : Values → Values) :
    KeepsTo A (modify f : Filling Unit) :=
  fun _ => refusesOnly_ok _

@[simp] theorem keepsTo_get : KeepsTo A (get : Filling Values) :=
  fun _ => refusesOnly_ok _

@[simp] theorem keepsTo_next : KeepsTo A next := by
  refine keepsTo_bind keepsTo_get fun v => ?_
  split <;> simp

@[simp] theorem keepsTo_lookUp (m : Medium) (key : Except Fault (List Char)) :
    KeepsTo A (lookUp m key) := by
  refine keepsTo_bind keepsTo_get fun v => ?_
  split <;> simp

/-- A number that is taken from the values, and then the rest. -/
theorem keepsTo_taken {f : Int → Filling β} (h : ∀ n, KeepsTo A (f n)) :
    KeepsTo A (do f (← (← next).number)) :=
  keepsTo_bind keepsTo_next fun d =>
    keepsTo_bind (keepsTo_lift d.refusesOnly_number) h

@[simp] theorem keepsTo_widthOf (e : Extent) : KeepsTo A (widthOf e) := by
  cases e with
  | absent | given n => exact keepsTo_pure _
  | taken =>
    refine keepsTo_taken fun n => ?_
    split_ifs <;> simp

@[simp] theorem keepsTo_precisionOf (e : Extent) : KeepsTo A (precisionOf e) := by
  cases e with
  | absent | given n => exact keepsTo_pure _
  | taken =>
    refine keepsTo_taken fun n => ?_
    split_ifs <;> simp

@[simp] theorem refusesOnly_spelled (d : Datum) (s : String) : RefusesOnly A (spelled d s) := by
  rw [spelled]
  split_ifs <;> simp

@[simp] theorem refusesOnly_shownValue (m : Medium) (d : Datum) :
    RefusesOnly A (shownValue m d) := by
  cases m <;> simp [shownValue]

@[simp] theorem refusesOnly_characterValue (m : Medium) (d : Datum) :
    RefusesOnly A (characterValue m d) := by
  unfold characterValue
  split
  · split <;> simp
  · split <;> simp
  · split <;> simp
  · simp only [refusesOnly_bind_iff, Datum.refusesOnly_number, true_and]
    intro n _
    cases m <;> simp <;> split_ifs <;> simp

@[simp] theorem refusesOnly_wholeValue (d : Datum) : RefusesOnly A (wholeValue d) := by
  unfold wholeValue
  split
  · split <;> simp
  · simp

@[simp] theorem refusesOnly_digitsOf (base n : Nat) (precision : Option Nat) :
    RefusesOnly A (digitsOf base n precision) := by
  simp only [digitsOf]
  split_ifs <;> simp

@[simp] theorem refusesOnly_realValue (m : Medium) (d : Datum) :
    RefusesOnly A (realValue m d) := by
  unfold realValue
  split
  · simp only
    split <;> simp
  · simp only [refusesOnly_bind_iff, Datum.refusesOnly_number, true_and]
    intro n _
    split <;> simp

@[simp] theorem refusesOnly_field (m : Medium) (flags : Flags) (precision : Option Nat) (d : Datum)
    (conversion : Conversion) : RefusesOnly A (conversion.field m flags precision d) := by
  cases conversion <;> simp [Conversion.field]

@[simp] theorem noConversion_ne_refused (m : Medium) (size : Nat) (d : Directive) (c : Char)
    (r : Rejection) : noConversion m size d c ≠ .refused r := by
  rw [noConversion]
  split_ifs <;> simp

@[simp] theorem keepsTo_fill (m : Medium) (size : Nat) (d : Directive) :
    KeepsTo A (d.fill m size) := by
  rcases hkey : d.key with _ | key <;> simp only [Directive.fill, hkey]
  case' some => refine keepsTo_bind (keepsTo_lookUp m key) fun _ => ?_
  all_goals
    refine keepsTo_bind (keepsTo_widthOf d.width) fun width => ?_
    refine keepsTo_bind (keepsTo_precisionOf d.precision) fun precision => ?_
    split
    · simp
    refine keepsTo_bind keepsTo_next fun value => ?_
    split
    · simp
    refine keepsTo_bind (keepsTo_lift (refusesOnly_field m _ _ _ _)) fun field => ?_
    split_ifs <;> simp

@[simp] theorem keepsTo_fillPiece (m : Medium) (size : Nat) (written : List (List Char))
    (p : Piece) : KeepsTo A (fillPiece m size written p) := by
  cases p <;> simp [fillPiece]

theorem keepsTo_fillPieces (m : Medium) (size : Nat) (ps : List Piece) :
    ∀ written, KeepsTo A (ps.foldlM (fillPiece m size) written) := by
  induction ps with
  | nil => simp
  | cons p ps ih => simp [ih]

@[simp] theorem refusesOnly_fill (m : Medium) (cs : List Char) (values : Datum) :
    RefusesOnly A (fill m cs values) := by
  simp only [fill, refusesOnly_bind_iff]
  refine ⟨keepsTo_fillPieces m _ _ _ _, fun p _ => ?_⟩
  split_ifs <;> simp

end Template

/-! ### Sums, products and powers -/

namespace Datum

@[simp] theorem refusesOnly_filled (template values : Datum) :
    RefusesOnly A (template.filled values) := by
  unfold filled
  split <;> simp

@[simp] theorem refusesOnly_plus (a b : Datum) : RefusesOnly A (a.plus b) := by
  unfold plus
  split
  · simp
  · split_ifs
    · simp
    · split <;> simp

theorem refusesOnly_repeated (items : List α) (n : Int) {long : Failure}
    (h : ∀ r, long ≠ .refused r) : RefusesOnly A (repeated items n long) := by
  simp only [repeated, repetitions]
  split_ifs <;> simp [h]

@[simp] theorem refusesOnly_repetition (d : Datum) (n : Int) :
    RefusesOnly A (d.repetition n) := by
  unfold repetition
  split <;> simp [refusesOnly_repeated]

@[simp] theorem refusesOnly_times (a b : Datum) : RefusesOnly A (a.times b) := by
  unfold times
  split
  · simp
  · split_ifs
    · simp
    · split <;> simp

@[simp] theorem refusesOnly_roundScalar (c : Curve) (atBase : Bool) (x : Scaled) :
    RefusesOnly A (c.roundScalar atBase x) := by
  unfold Curve.roundScalar
  simp only
  split <;> split_ifs <;> simp

theorem noDigits_ne_refused (remainder : Datum) (r : Rejection) :
    remainder.noDigits ≠ .refused r := by
  rw [noDigits]
  split
  · simp
  · rename_i f hf
    exact Unrefused.ne_refused (refusesOnly_filled _ _) hf r

@[simp] theorem refusesOnly_multiplier (c : Curve) (atBase : Bool) (k : Datum) :
    RefusesOnly A (k.multiplier c atBase) := by
  unfold multiplier
  split_ifs
  · split
    · simp
    · simp
    · simp only [templateMultiplier, refusesOnly_bind_iff, refusesOnly_filled, true_and]
      intro remainder _
      split_ifs <;> simp [noDigits_ne_refused]
  · simp

@[simp] theorem pointResidueFailure_ne_refused (P : PlacedPoint) (atBase : Bool) (k : Datum)
    (r : Rejection) : pointResidueFailure P atBase k ≠ .refused r := by
  unfold pointResidueFailure
  split
  · simp
  · split
    · simp
    · rename_i f hf
      exact Unrefused.ne_refused (refusesOnly_multiplier _ _ _) hf r

@[simp] theorem residueFailure_ne_refused (product : Option Datum) (modulus : Datum)
    (r : Rejection) : residueFailure product modulus ≠ .refused r := by
  unfold residueFailure
  extract_lets number inRange
  split
  · rename_i f hf
    refine Unrefused.ne_refused ?_ hf r
    simp [inRange]
  · simp
  · simp

@[simp] theorem refusesOnly_residue (a b modulus : Datum) :
    RefusesOnly A (a.residue b modulus) := by
  unfold residue
  split
  · simp
  · simp
  · simp
  · simp
  · simp only [refusesOnly_bind_iff, refusesOnly_times, true_and]
    intro product _
    split <;> simp

@[simp] theorem powerFailure_ne_refused (base exponent : Datum) (r : Rejection) :
    powerFailure base exponent ≠ .refused r := by
  unfold powerFailure
  extract_lets inRange
  split
  · rename_i f hf
    refine Unrefused.ne_refused ?_ hf r
    simp [inRange]
  · split_ifs <;> simp
  · simp

@[simp] theorem refusesOnly_plainPower (base exponent : Datum) :
    RefusesOnly A (plainPower base exponent) := by
  unfold plainPower
  split
  · simp only [naturalPower]
    split_ifs <;> simp
  · simp

end Datum

end CurveLock

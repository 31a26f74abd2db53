import CurveLock.Call
import CurveLock.Proofs.FixedBase.Agreement
import CurveLock.Proofs.Number.Inverse

/-!
# Reports that cannot be written

An operation that is handed an integer out of its range says so in a report that writes the integer
in decimal.  One of more than `digitLimit` digits cannot be written, and then the operation fails
for that and not for the reason that it was to report.  This is so wherever a report writes an
integer, and nowhere else.

* `Failure.reported f ns`: what an attempt to report `f`, with the integers `ns`, ends in;
* `Failure.refuse_eq_reported`, `Failure.breakdown_eq_reported`: every failure that has a report;
* `misuse_reported`: what each operation on integers does with an integer that is out of its range.
-/

namespace CurveLock

namespace Failure

/-- What an attempt to report `f`, with the integers `ns` in the report, ends in. -/
def reported (f : Failure) (ns : List ℤ) : Failure :=
  if ∀ n ∈ ns, n.natAbs < 10 ^ digitLimit then f else .tooManyDigits

theorem writable_iff {ns : List ℤ} :
    writable ns = true ↔ ∀ n ∈ ns, n.natAbs < 10 ^ digitLimit := by
  simp only [writable, List.all_eq_true, decide_eq_true_eq, Nat.pow_eq]

/-- **Every refusal is reported**, or else the digits are too many. -/
theorem refuse_eq_reported (r : Rejection) : refuse r = reported (.refused r) r.integers := by
  simp only [refuse, reported, writable_iff]

theorem breakdown_eq_reported (b : Breakdown) :
    breakdown b = reported (.broken b) b.integers := by
  simp only [breakdown, reported, writable_iff]

theorem reported_of_lt {f : Failure} {ns : List ℤ}
    (h : ∀ n ∈ ns, n.natAbs < 10 ^ digitLimit) : reported f ns = f := if_pos h

theorem reported_of_le {f : Failure} {ns : List ℤ} {n : ℤ} (hn : n ∈ ns)
    (h : 10 ^ digitLimit ≤ n.natAbs) : reported f ns = .tooManyDigits :=
  if_neg fun hall => (hall n hn).not_ge h

end Failure

open Failure (reported refuse_eq_reported)

/-- The least positive integer that has too many digits. -/
def unwritable : ℤ := 10 ^ digitLimit

theorem maxWindow_lt_unwritable : (maxWindow : ℤ) < unwritable := by
  rw [unwritable]
  calc (maxWindow : ℤ) < 10 ^ 2 := by decide
    _ ≤ 10 ^ digitLimit := pow_le_pow_right₀ (by decide) (by decide)

theorem natAbs_unwritable : unwritable.natAbs = 10 ^ digitLimit := by
  have hten : Int.natAbs 10 = 10 := rfl
  rw [unwritable, Int.natAbs_pow, hten]

/-! ### Integers out of range, operation by operation -/

section Misuse

variable (s : Scratch)

namespace Datum

theorem encode_negative {v : ℤ} (hv : v < 0) (width : Datum) :
    (int v).encode width = .error (reported (.refused (.negativeInteger (.int v))) [v]) := by
  rw [encode.eq_def, isLess_int, decide_eq_true hv, refuse_eq_reported]
  rfl

theorem run_randomBelow_nonpos {b : ℤ} (hb : b ≤ 0) :
    (int b).randomBelow.run s =
      .error (reported (.refused (.boundNotPositive (.int b))) [b]) s := by
  rw [randomBelow, isAtMost_int, decide_eq_true hb]
  exact congrArg (EStateM.Result.error · s) (refuse_eq_reported _)

theorem run_randomBetween_empty {low high : ℤ} (h : high ≤ low) :
    ((int low).randomBetween (int high)).run s =
      .error (reported (.refused (.emptyRange (.int low) (.int high))) [low, high]) s := by
  rw [randomBetween, isAtMost_int, decide_eq_true h]
  exact congrArg (EStateM.Result.error · s) (refuse_eq_reported _)

theorem run_inverseMod_not_invertible {v m : ℤ} (h : m = 0 ∨ Int.gcd v m ≠ 1) :
    ((int v).inverseMod (int m)).run s =
      .error (reported (.broken (.notInvertible (.int m))) [m])
        { s with opCount := s.opCount + 1 } := by
  rw [inverseMod_int, Metered.inverseMod, Metered.inverseModAs, EStateM.run_bind,
    Metered.run_tick]
  simp only [Residue.inverse?_eq_none_iff.2 h, Failure.breakdown_eq_reported]
  rfl

end Datum

theorem Metered.run_oracle_nonpos {b : ℤ} (hb : b ≤ 0) (data : Datum) :
    (oracle data (.int b)).run s =
      .error (reported (.refused (.boundNotPositive (.int b))) [b]) s := by
  rw [oracle, Datum.isAtMost_int, decide_eq_true hb]
  exact congrArg (EStateM.Result.error · s) (refuse_eq_reported _)

theorem Curve.find_unregistered {n : ℤ} (hn : ∀ c : Curve, (c.number : ℤ) ≠ n) :
    find (.int n) = .error (reported (.refused (.unknownCurve (.int n))) [n]) := by
  have hnone : ofNumber? n = none :=
    List.find?_eq_none.2 fun c _ => by simpa only [decide_eq_true_eq] using hn c
  rw [find.eq_def]
  simp only [hnone, refuse_eq_reported]
  rfl

namespace FixedBase

theorem Defaults.build_small_modulus (d : Defaults) (given : Option Settings) (b : ℤ) {m : ℤ}
    (hm : m ≤ 1) :
    d.build given (.int b) (.int m) =
      (throw (reported (.refused (.modulusTooSmall m)) [m]), d) := by
  rw [Defaults.build, checkNumbers, if_pos hm, refuse_eq_reported]
  rfl

namespace Settings

theorem make_window_out_of_range {w : ℤ} (hw : ¬ (1 ≤ w ∧ w ≤ maxWindow)) (choice bits : Datum) :
    make choice (.int w) bits =
      .error (reported (.refused (.windowOutOfRange (.int w))) [w]) := by
  rw [make, checkWindow, Datum.isAtMost_int, Datum.isAtMost_int, refuse_eq_reported]
  by_cases hlow : 1 ≤ w
  · rw [decide_eq_true hlow, decide_eq_false fun hhigh => hw ⟨hlow, hhigh⟩]
    rfl
  · rw [decide_eq_false hlow]
    rfl

theorem make_bits_nonpos {w k : ℤ} (hlow : 1 ≤ w) (hhigh : w ≤ maxWindow) (hk : k ≤ 0)
    (choice : Datum) :
    make choice (.int w) (.int k) =
      .error (reported (.refused (.tableBitsNotPositive (.int k))) [k]) := by
  rw [make, checkWindow_eq rfl hlow hhigh]
  simp only [checkTableBits, Datum.isAtMost_int, decide_eq_true hk, refuse_eq_reported]
  rfl

end Settings

end FixedBase

theorem Call.run_group_unregistered {n : ℤ} (hn : ∀ c : Curve, (c.number : ℤ) ≠ n) :
    (group (.int n)).run.run s =
      .error (reported (.refused (.unknownCurve (.int n))) [n]) s := by
  rw [run, Curve.find_unregistered hn]
  rfl

end Misuse

/-! ### All of them -/

/-- **An integer out of range is reported, unless it has too many digits.**  For integers of every
size, whatever else is handed in: a negative integer to be encoded, a bound of a random number or of
a hash value that is not positive, an empty range, a number under which no curve is registered, a
modulus that is at most one, and a window or a width of the table that is out of range are refused
before anything is counted, drawn or recorded, and before the process default is looked at; an
integer that has no inverse fails after the one step that is counted.  Each report writes the
integers that it is about, and where one of them has more than `digitLimit` digits the operation
ends in `Failure.tooManyDigits` instead. -/
theorem misuse_reported (s : Scratch) :
    (∀ (v : ℤ) (width : Datum), v < 0 → (Datum.int v).encode width =
      .error (reported (.refused (.negativeInteger (.int v))) [v])) ∧
    (∀ b : ℤ, b ≤ 0 →
      (Datum.int b).randomBelow.run s =
        .error (reported (.refused (.boundNotPositive (.int b))) [b]) s ∧
      ∀ data : Datum, (Metered.oracle data (.int b)).run s =
        .error (reported (.refused (.boundNotPositive (.int b))) [b]) s) ∧
    (∀ low high : ℤ, high ≤ low → ((Datum.int low).randomBetween (.int high)).run s =
      .error (reported (.refused (.emptyRange (.int low) (.int high))) [low, high]) s) ∧
    (∀ n : ℤ, (∀ c : Curve, (c.number : ℤ) ≠ n) →
      Curve.find (.int n) = .error (reported (.refused (.unknownCurve (.int n))) [n]) ∧
      (Call.group (.int n)).run.run s =
        .error (reported (.refused (.unknownCurve (.int n))) [n]) s) ∧
    (∀ (d : FixedBase.Defaults) (given : Option FixedBase.Settings) (b m : ℤ), m ≤ 1 →
      d.build given (.int b) (.int m) =
        (throw (reported (.refused (.modulusTooSmall m)) [m]), d)) ∧
    (∀ (choice bits : Datum) (w : ℤ), ¬ (1 ≤ w ∧ w ≤ 16) →
      FixedBase.Settings.make choice (.int w) bits =
        .error (reported (.refused (.windowOutOfRange (.int w))) [w])) ∧
    (∀ (choice : Datum) (w k : ℤ), 1 ≤ w → w ≤ 16 → k ≤ 0 →
      FixedBase.Settings.make choice (.int w) (.int k) =
        .error (reported (.refused (.tableBitsNotPositive (.int k))) [k])) ∧
    ∀ v m : ℤ, m = 0 ∨ Int.gcd v m ≠ 1 → ((Datum.int v).inverseMod (.int m)).run s =
      .error (reported (.broken (.notInvertible (.int m))) [m])
        { s with opCount := s.opCount + 1 } := by
  refine ⟨fun v width hv => Datum.encode_negative hv width, fun b hb => ⟨?_, ?_⟩,
    fun low high h => Datum.run_randomBetween_empty s h, fun n hn => ⟨?_, ?_⟩, ?_, ?_, ?_,
    fun v m h => Datum.run_inverseMod_not_invertible s h⟩
  · exact Datum.run_randomBelow_nonpos s hb
  · exact Metered.run_oracle_nonpos s hb
  · exact Curve.find_unregistered hn
  · exact Call.run_group_unregistered s hn
  · exact fun d given b m hm => d.build_small_modulus given b hm
  · exact fun choice bits w hw => FixedBase.Settings.make_window_out_of_range hw choice bits
  · exact fun choice w k hlow hhigh hk =>
      FixedBase.Settings.make_bits_nonpos hlow hhigh hk choice

theorem misuse_reported_small :
    (Datum.int (-1)).encode .null = .error (.refused (.negativeInteger (.int (-1)))) ∧
    (Datum.int 0).randomBelow.run {} = .error (.refused (.boundNotPositive (.int 0))) {} ∧
    ((Datum.int 5).randomBetween (.int 5)).run {} =
      .error (.refused (.emptyRange (.int 5) (.int 5))) {} ∧
    Curve.find (.int 0) = .error (.refused (.unknownCurve (.int 0))) ∧
    FixedBase.Defaults.build {} none (.int 3) (.int 1) =
      (throw (.refused (.modulusTooSmall 1)), {}) ∧
    FixedBase.Settings.make .null (.int 0) .null =
      .error (.refused (.windowOutOfRange (.int 0))) ∧
    FixedBase.Settings.make .null (.int 4) (.int 0) =
      .error (.refused (.tableBitsNotPositive (.int 0))) ∧
    ((Datum.int 2).inverseMod (.int 4)).run {} =
      .error (.broken (.notInvertible (.int 4))) { opCount := 1 } := by
  obtain ⟨hencode, hbound, hrange, hcurve, hmodulus, hwindow, hbits, hinverse⟩ :=
    misuse_reported {}
  have hwritten (f : Failure) (ns : List ℤ) (h : ∀ n ∈ ns, n.natAbs < 10) : reported f ns = f :=
    Failure.reported_of_lt fun n hn => (h n hn).trans_le (Nat.le_self_pow (by decide) 10)
  refine ⟨?_, ?_, ?_, ?_, ?_, ?_, ?_, ?_⟩
  · rw [hencode (-1) .null (by decide), hwritten _ _ (by decide)]
  · rw [(hbound 0 (by decide)).1, hwritten _ _ (by decide)]
  · rw [hrange 5 5 (by decide), hwritten _ _ (by decide)]
  · rw [(hcurve 0 fun c => by cases c <;> decide).1, hwritten _ _ (by decide)]
  · rw [hmodulus {} none 3 1 (by decide), hwritten _ _ (by decide)]
  · rw [hwindow .null .null 0 (by decide), hwritten _ _ (by decide)]
  · rw [hbits .null 4 0 (by decide) (by decide) (by decide), hwritten _ _ (by decide)]
  · rw [hinverse 2 4 (by decide), hwritten _ _ (by decide)]

/-- **Nine operations fail for the digits of the integer that they refuse**, and not as they do for
an integer with fewer digits. -/
theorem misuse_unreported :
    (Datum.int (-unwritable)).encode .null = .error .tooManyDigits ∧
    (Datum.int (-unwritable)).randomBelow.run {} = .error .tooManyDigits {} ∧
    (Metered.oracle (.bytes []) (.int (-unwritable))).run {} = .error .tooManyDigits {} ∧
    ((Datum.int unwritable).randomBetween (.int 0)).run {} = .error .tooManyDigits {} ∧
    Curve.find (.int (-unwritable)) = .error .tooManyDigits ∧
    (Call.group (.int (-unwritable))).run.run {} = .error .tooManyDigits {} ∧
    FixedBase.Defaults.build {} none (.int 2) (.int (-unwritable)) = (throw .tooManyDigits, {}) ∧
    FixedBase.Settings.make (.bool true) (.int unwritable) .null = .error .tooManyDigits ∧
    FixedBase.Settings.make (.bool true) (.int 4) (.int (-unwritable)) = .error .tooManyDigits ∧
    ((Datum.int 0).inverseMod (.int unwritable)).run {} =
      .error .tooManyDigits { opCount := 1 } := by
  have hwide : 16 < unwritable := maxWindow_lt_unwritable
  have hneg : -unwritable < 0 := by omega
  have hlarge (f : Failure) (ns : List ℤ) (n : ℤ) (hn : n = unwritable ∨ n = -unwritable) :
      reported f (n :: ns) = .tooManyDigits := by
    refine Failure.reported_of_le List.mem_cons_self ?_
    rcases hn with h | h
    · rw [h, natAbs_unwritable]
    · rw [h, Int.natAbs_neg, natAbs_unwritable]
  have hcurve (c : Curve) : (c.number : ℤ) ≠ -unwritable := by omega
  refine ⟨?_, ?_, ?_, ?_, ?_, ?_, ?_, ?_, ?_, ?_⟩
  · rw [Datum.encode_negative hneg, hlarge _ _ _ (.inr rfl)]
  · rw [Datum.run_randomBelow_nonpos _ hneg.le, hlarge _ _ _ (.inr rfl)]
  · rw [Metered.run_oracle_nonpos _ hneg.le, hlarge _ _ _ (.inr rfl)]
  · rw [Datum.run_randomBetween_empty _ (by omega), hlarge _ _ _ (.inl rfl)]
  · rw [Curve.find_unregistered hcurve, hlarge _ _ _ (.inr rfl)]
  · rw [Call.run_group_unregistered _ hcurve, hlarge _ _ _ (.inr rfl)]
  · rw [FixedBase.Defaults.build_small_modulus _ _ _ (by omega), hlarge _ _ _ (.inr rfl)]
  · rw [FixedBase.Settings.make_window_out_of_range fun h => h.2.not_gt maxWindow_lt_unwritable,
      hlarge _ _ _ (.inl rfl)]
  · rw [FixedBase.Settings.make_bits_nonpos (by decide) (by decide) hneg.le,
      hlarge _ _ _ (.inr rfl)]
  · have hgcd : Int.gcd 0 unwritable ≠ 1 := by
      rw [Int.gcd_zero_left]
      omega
    rw [Datum.run_inverseMod_not_invertible _ (.inr hgcd), hlarge _ _ _ (.inl rfl)]

end CurveLock

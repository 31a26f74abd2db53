import CurveLock.FixedBase.Basic
import CurveLock.Proofs.Datum
import CurveLock.Proofs.FixedBase.Table
import CurveLock.Proofs.Scratch

/-!
# The digit table changes no answer

A fixed base that was made from integers is made whether or not the settings ask for a table
(`FixedBase.exists_run_build`), and in either case it answers an exponent with the power, and
refuses what is negative or no integer (`FixedBase.Serves.result_power`).  So one fixed base answers
a run of exponents, however long, as any other of the same base and modulus does.

* `FixedBase.answer`, `FixedBase.answers`: what is to be answered, and what is answered;
* `FixedBase.Serves`: the fixed bases of a given base and modulus;
* `FixedBase.strategies_agree`: the answers with and without a table.
-/

namespace CurveLock

namespace FixedBase

/-! ### Answers -/

/-- The answer to an exponent: the power of `b` modulo `n`. A negative exponent, or a value that is
no integer, is refused. -/
def answer (b n : ℤ) : Datum → Except Failure ℕ
  | .int e => if e < 0 then .error (.refused .exponentNegative) else .ok (b ^ e.toNat % n).toNat
  | d => .error (.refused (.exponentNotInteger d))

/-- The answers that a fixed base gives to exponents, one after the other, each in the scratch that
the one before has left. -/
def answers (fixed : FixedBase) : List Datum → Scratch → List (Except Failure ℕ)
  | [], _ => []
  | e :: es, s => (fixed.power e).result s :: fixed.answers es ((fixed.power e).after s)

theorem answer_emod (b n : ℤ) : answer (b % n) n = answer b n := by
  funext d
  cases d with
  | int e => simp only [answer, ((Int.mod_modEq b n).pow e.toNat).eq]
  | _ => rfl

/-- A fixed base of the reduced base `g` and the modulus `m`: its table, where it has one, is filled
with the powers. -/
structure Serves (fixed : FixedBase) (g m : ℕ) : Prop where
  base_eq : fixed.base = g
  modulus_eq : fixed.modulus = m
  table_eq : ∀ t ∈ fixed.table, ∃ w rows, t = Table.filled m g w rows

namespace Serves

variable {fixed : FixedBase} {g m : ℕ}

/-- **With the table and without it, the answer is the power.** -/
theorem exists_run_powerNat (h : fixed.Serves g m) (hm : 0 < m) (e : ℕ) (s : Scratch) :
    ∃ s', (fixed.powerNat e).run s = .ok (g ^ e % m) s' := by
  rw [powerNat, h.base_eq, h.modulus_eq]
  rcases htable : fixed.table with _ | t
  · exact ⟨_, run_raise m g e s⟩
  · obtain ⟨w, rows, rfl⟩ := h.table_eq t htable
    exact ⟨_, Table.run_power hm g w rows e s⟩

/-- **One exponent is answered as it is to be answered.** -/
theorem result_power (h : fixed.Serves g m) (hm : 0 < m) (d : Datum) (s : Scratch) :
    (fixed.power d).result s = answer g m d := by
  cases d with
  | int e =>
    rw [power, answer]
    split_ifs with he
    · rfl
    · obtain ⟨s', hs'⟩ := h.exists_run_powerNat hm e.toNat s
      rw [Metered.result_eq_ok hs', ← Nat.cast_pow, ← Int.natCast_mod, Int.toNat_natCast]
  | _ => rfl

/-- **So is a run of exponents**: nothing that one of them leaves behind changes the next answer. -/
theorem answers_eq (h : fixed.Serves g m) (hm : 0 < m) (es : List Datum) :
    ∀ s, fixed.answers es s = es.map (answer g m) := by
  induction es with
  | nil => exact fun s => rfl
  | cons e es ih =>
    intro s
    rw [answers, List.map_cons, h.result_power hm, ih]

end Serves

/-! ### Making a fixed base -/

/-- The widths of a table that are accepted: none, or a positive integer. -/
def IsTableBits (bits : Datum) : Prop := bits = .null ∨ ∃ k, bits.integer? = some k ∧ 1 ≤ k

theorem Settings.checkTableBits_eq {bits : Datum} (h : IsTableBits bits) :
    checkTableBits bits = .ok () := by
  rcases h with rfl | ⟨k, hk, hk1⟩
  · rfl
  · have hatMost := Datum.isAtMost_of_integer? hk (b := .int 0) rfl
    rw [decide_eq_false (by omega)] at hatMost
    cases bits with
    | int | bool =>
      simp only [checkTableBits, hatMost]
      rfl
    | _ => cases hk

theorem Settings.checkWindow_eq {window : Datum} {w : ℤ} (hw : window.integer? = some w)
    (hpos : 1 ≤ w) (hle : w ≤ maxWindow) : checkWindow window = .ok () := by
  rw [checkWindow, Datum.isAtMost_of_integer? rfl hw, Datum.isAtMost_of_integer? hw rfl,
    decide_eq_true hpos, decide_eq_true hle]
  rfl

theorem Settings.make_eq {window bits : Datum} {w : ℤ} (hw : window.integer? = some w)
    (hpos : 1 ≤ w) (hle : w ≤ maxWindow) (hbits : IsTableBits bits) (choice : Datum) :
    make choice window bits = .ok ⟨choice, window, bits⟩ := by
  rw [make, checkWindow_eq hw hpos hle, checkTableBits_eq hbits]
  rfl

theorem Settings.exists_coveredBits {st : Settings} (h : IsTableBits st.tableBits) (m : ℕ) :
    ∃ k, st.coveredBits m = .ok k := by
  rcases st with ⟨choice, window, bits⟩
  rcases h with rfl | ⟨k, hk, -⟩
  · exact ⟨_, rfl⟩
  · cases bits with
    | int | bool => exact ⟨_, rfl⟩
    | _ => cases hk

theorem checkNumbers_int {n : ℤ} (hn : 1 < n) (b : ℤ) :
    checkNumbers (.int b) (.int n) = .ok ((b % n).toNat, n.toNat) := by
  rw [checkNumbers, if_neg (by omega)]

/-- A table that the settings ask for is built and recorded. -/
theorem run_build_table {g m : ℕ} (hg : g < m) {st : Settings} (hwants : st.wantsTable = true)
    {w k : ℕ} (hw : st.windowWidth = .ok w) (hk : st.coveredBits m = .ok k) (s : Scratch) :
    (build g m st).run s = .ok ⟨g, m, st, some (Table.filled m g w (Table.rowCount k w))⟩
      { s with
        opCount := s.opCount + Table.rowCount k w * Table.radix w
        log := s.log ++ [.tableBuilt st.window.display (Table.rowCount k w)
          (Table.rowCount k w * Table.radix w)] } := by
  have hsize : (Table.filled m g w (Table.rowCount k w)).size =
      Table.rowCount k w * Table.radix w := by
    rw [Table.size, Table.filled, Table.length_rowsOf]
  rw [build, if_pos hwants, hw, hk]
  simp only [EStateM.run_bind, Metered.run_lift_ok, Table.run_build hg, Metered.run_record, hsize]
  simp only [Table.filled, Table.length_rowsOf]
  rfl

/-- **A fixed base is made with the table that the settings ask for.** -/
theorem exists_run_build {g m : ℕ} (hg : g < m) (st : Settings) {w : ℤ}
    (hw : st.window.integer? = some w) (hbits : IsTableBits st.tableBits) (s : Scratch) :
    ∃ fixed s', (build g m st).run s = .ok fixed s' ∧ fixed.table.isSome = st.wantsTable ∧
      fixed.Serves g m := by
  have hwidth : st.windowWidth = .ok w.toNat := by
    rw [Settings.windowWidth, Datum.number, hw]
    rfl
  obtain ⟨k, hk⟩ := Settings.exists_coveredBits hbits m
  by_cases hwants : st.wantsTable = true
  · refine ⟨_, _, run_build_table hg hwants hwidth hk s, hwants.symm, rfl, rfl, ?_⟩
    rintro t ⟨⟩
    exact ⟨_, _, rfl⟩
  · have hrun : ∃ s', (build g m st).run s = .ok ⟨g, m, st, none⟩ s' := by
      rw [build, if_neg hwants]
      exact ⟨_, rfl⟩
    obtain ⟨s', hs'⟩ := hrun
    refine ⟨_, s', hs', (Bool.eq_false_iff.2 hwants).symm, rfl, rfl, ?_⟩
    rintro t ⟨⟩

/-- **With and without a table the answers are the same.**  Whatever the caller chooses, and whether
the settings are given or are the process default, a base and a modulus above one make a fixed base,
which has a table if the choice counts as true.  It answers every run of exponents, whatever the
scratch, with the powers modulo `n` in `[0, n)`, and with a refusal of those that are negative or no
integer. -/
theorem strategies_agree {b n : ℤ} (hn : 1 < n) {window bits : Datum} {w : ℤ}
    (hw : window.integer? = some w) (hpos : 1 ≤ w) (hle : w ≤ 16) (hbits : IsTableBits bits) :
    (∀ choice : Datum, ∃ st, Settings.make choice window bits = .ok st ∧
      ∀ (defaults : Defaults) (given : Option Settings), given.or defaults.loaded = some st →
        (defaults.build given (.int b) (.int n)).2 = defaults ∧
        ∀ s, ∃ fixed s', (defaults.build given (.int b) (.int n)).1.run s = .ok fixed s' ∧
          fixed.table.isSome = choice.isTrue ∧
          ∀ (es : List Datum) (s₁ : Scratch), fixed.answers es s₁ = es.map (answer b n)) ∧
    ∀ e : ℤ, 0 ≤ e →
      ∃ v : ℕ, answer b n (.int e) = .ok v ∧ (v : ℤ) = b ^ e.toNat % n ∧ (v : ℤ) < n := by
  have hn0 : 0 < n := by omega
  refine ⟨fun choice => ⟨_, Settings.make_eq hw hpos hle hbits choice, ?_⟩, ?_⟩
  · intro defaults given hgiven
    have hbuild : defaults.build given (.int b) (.int n) =
        (build (b % n).toNat n.toNat ⟨choice, window, bits⟩, defaults) := by
      rw [Defaults.build, checkNumbers_int hn]
      rcases given with _ | st
      · simp only [Option.none_or] at hgiven
        simp only [Defaults.get, hgiven]
      · obtain rfl := Option.some.inj hgiven
        rfl
    rw [hbuild]
    refine ⟨rfl, fun s => ?_⟩
    have hnonneg := Int.emod_nonneg b hn0.ne'
    have hlt := Int.emod_lt_of_pos b hn0
    obtain ⟨fixed, s', hrun, htable, hserves⟩ :=
      exists_run_build (by omega : (b % n).toNat < n.toNat) ⟨choice, window, bits⟩ hw hbits s
    refine ⟨fixed, s', hrun, htable, fun es s₁ => ?_⟩
    rw [hserves.answers_eq (by omega), Int.toNat_of_nonneg hnonneg, Int.toNat_of_nonneg hn0.le,
      answer_emod]
  · intro e he
    have hnonneg := Int.emod_nonneg (b ^ e.toNat) hn0.ne'
    have hvalue : ((b ^ e.toNat % n).toNat : ℤ) = b ^ e.toNat % n := Int.toNat_of_nonneg hnonneg
    refine ⟨_, by rw [answer, if_neg (by omega)], hvalue, ?_⟩
    rw [hvalue]
    exact Int.emod_lt_of_pos _ hn0

theorem strategies_agree_negative_base :
    ∃ st fixed s', Settings.make (.bool true) (.int 3) (.int 2) = .ok st ∧
      (Defaults.build {} (some st) (.int (-3)) (.int 221)).1.run {} = .ok fixed s' ∧
      fixed.table.isSome = true ∧
      fixed.answers [.int 0, .int (-1), .null, .int 100] {} =
        [.ok 1, .error (.refused .exponentNegative), .error (.refused (.exponentNotInteger .null)),
          .ok 81] := by
  have hwindow : (Datum.int 3).integer? = some 3 := rfl
  have hbits : IsTableBits (.int 2) := Or.inr ⟨2, rfl, by decide⟩
  obtain ⟨hmake, -⟩ :=
    strategies_agree (b := -3) (n := 221) (by decide) hwindow (by decide) (by decide) hbits
  obtain ⟨st, hst, hbuild⟩ := hmake (.bool true)
  obtain ⟨-, hrun⟩ := hbuild {} (some st) rfl
  obtain ⟨fixed, s', hs', htable, hanswers⟩ := hrun {}
  exact ⟨st, fixed, s', hst, hs', htable, hanswers _ _⟩

end FixedBase

end CurveLock

import CurveLock.Proofs.FixedBase.Agreement
import Mathlib.Algebra.Order.Floor.Div
import Mathlib.Data.Nat.Digits.Defs

/-!
# What powers from a digit table cost

A table with `W` rows for windows of `w` binary digits costs `W · 2 ^ w` steps when it is made
(`FixedBase.run_build_covers`), and then a power costs one step for each digit of the exponent, in
the radix `2 ^ w`, that is not zero and that the rows cover, and two steps and a warning where the
exponent reaches above the rows (`FixedBase.run_power_tabled`).  What an exponent costs does not
depend on those before it, so a run of exponents costs what they cost together
(`FixedBase.afterPowers_tabled`).
-/

namespace CurveLock

/-- The scratch after some more steps and events. -/
def Scratch.charge (s : Scratch) (steps : ℕ) (events : List Event) : Scratch :=
  { s with opCount := s.opCount + steps, log := s.log ++ events }

theorem Scratch.charge_zero (s : Scratch) : s.charge 0 [] = s := by
  rw [charge, Nat.add_zero, List.append_nil]

theorem Scratch.charge_charge (s : Scratch) (m n : ℕ) (es fs : List Event) :
    (s.charge m es).charge n fs = s.charge (m + n) (es ++ fs) := by
  simp only [charge, Nat.add_assoc, List.append_assoc]

namespace FixedBase

/-! ### One power -/

/-- The steps that a power with exponent `e` takes from `W` rows for windows of `w` binary digits:
one for each digit other than zero among the `W` lowest, and two if the exponent reaches above
them. -/
def powerSteps (w W e : ℕ) : ℕ :=
  ((Nat.digits (2 ^ w) e).take W).countP (· ≠ 0) + if 2 ^ (W * w) ≤ e then 2 else 0

/-- What is recorded of it: a warning if the exponent has more binary digits than the rows cover. -/
def powerEvents (w W e : ℕ) : List Event :=
  if W * w < bitLength e then [.exponentTooWide (bitLength e) (W * w)] else []

theorem countP_digits_le (w W e : ℕ) : ((Nat.digits (2 ^ w) e).take W).countP (· ≠ 0) ≤ W :=
  List.countP_le_length.trans (List.length_take_le W _)

/-- No power takes more than two steps besides one for each row. -/
theorem powerSteps_le (w W e : ℕ) : powerSteps w W e ≤ W + 2 := by
  have hdigits := countP_digits_le w W e
  rw [powerSteps]
  split_ifs <;> omega

/-- An exponent that the rows cover takes no more than one step for each row. -/
theorem powerSteps_le_rows {w W e : ℕ} (h : bitLength e ≤ W * w) : powerSteps w W e ≤ W := by
  rw [powerSteps, if_neg (not_le.2 (bitLength_le_iff.1 h)), Nat.add_zero]
  exact countP_digits_le w W e

namespace Table

/-- **The digits that are counted are those that the number has in the radix.** -/
theorem digitCount_eq_countP {r : ℕ} (hr : 1 < r) (n : ℕ) :
    ∀ e, digitCount r n e = ((Nat.digits r e).take n).countP (· ≠ 0) := by
  induction n with
  | zero => exact fun e => rfl
  | succ n ih =>
    intro e
    rcases Nat.eq_zero_or_pos e with rfl | he
    · have hzero := ih 0
      rw [Nat.digits_zero, List.take_nil] at hzero ⊢
      rw [digitCount, Nat.zero_mod, if_pos rfl, Nat.zero_div, hzero]
      rfl
    · rw [digitCount, ih, Nat.digits_def' hr he, List.take_succ_cons, List.countP_cons,
        Nat.add_comm]
      by_cases h0 : e % r = 0
      · simp [h0]
      · simp [h0]

theorem afterPower_filled {w : ℕ} (hw : 1 ≤ w) (m g W e : ℕ) (s : Scratch) :
    (filled m g w W).afterPower e s = s.charge (powerSteps w W e) (powerEvents w W e) := by
  have hcount : digitCount (radix w) W e = ((Nat.digits (2 ^ w) e).take W).countP (· ≠ 0) := by
    rw [radix_eq, digitCount_eq_countP (Nat.one_lt_two_pow (by omega))]
  rw [afterPower, powerSteps, powerEvents]
  simp only [filled, coveredBits, length_rowsOf, radix_pow, hcount, lt_bitLength_iff,
    Nat.div_eq_zero_iff_lt (Nat.two_pow_pos _)]
  split_ifs with hlt hle
  · omega
  · rw [Scratch.charge, List.append_nil, Nat.add_zero]
  · rfl
  · omega

theorem rowCount_eq (bits w : ℕ) : rowCount bits w = bits ⌈/⌉ w :=
  (Nat.ceilDiv_eq_add_pred_div bits w).symm

/-- The rows cover the binary digits that they were made for. -/
theorem le_ceilDiv_mul {w : ℕ} (hw : 1 ≤ w) (bits : ℕ) : bits ≤ bits ⌈/⌉ w * w := by
  rw [Nat.mul_comm]
  exact (ceilDiv_le_iff_le_mul (Nat.lt_of_succ_le hw)).1 le_rfl

end Table

/-! ### Making the table -/

/-- A table is asked to cover as many binary digits as the modulus has, or a positive number of
them. -/
def Covers (bits : Datum) (m k : ℕ) : Prop :=
  (bits = .null ∧ k = bitLength m) ∨ (bits.integer? = some (k : ℤ) ∧ 1 ≤ k)

theorem Covers.isTableBits {bits : Datum} {m k : ℕ} (h : Covers bits m k) : IsTableBits bits :=
  h.imp And.left fun ⟨hk, hpos⟩ => ⟨k, hk, by omega⟩

theorem Covers.coveredBits_eq {st : Settings} {m k : ℕ} (h : Covers st.tableBits m k) :
    st.coveredBits m = .ok k := by
  rcases st with ⟨choice, window, bits⟩
  rcases h with ⟨rfl, rfl⟩ | ⟨hk, -⟩
  · rfl
  · cases bits with
    | int | bool =>
      obtain hk' := Option.some.inj hk
      simp only [Settings.coveredBits, Datum.number, Datum.integer?, hk']
      rfl
    | _ => cases hk

/-- The fixed base that is made with a table. -/
def tabled (g m : ℕ) (st : Settings) (w W : ℕ) : FixedBase := ⟨g, m, st, some (.filled m g w W)⟩

/-- **Making a table takes one step for each of its entries.** -/
theorem run_build_covers {g m : ℕ} (hg : g < m) (st : Settings) (hwants : st.wantsTable = true)
    {w k : ℕ} (hw : st.window.integer? = some (w : ℤ)) (hk : Covers st.tableBits m k)
    (s : Scratch) :
    (build g m st).run s = .ok (tabled g m st w (k ⌈/⌉ w))
      (s.charge (k ⌈/⌉ w * 2 ^ w)
        [.tableBuilt st.window.display (k ⌈/⌉ w) (k ⌈/⌉ w * 2 ^ w)]) := by
  have hwidth : st.windowWidth = .ok w := by
    rw [Settings.windowWidth, Datum.number, hw]
    rfl
  rw [run_build_table hg hwants hwidth hk.coveredBits_eq, Table.rowCount_eq, Table.radix_eq]
  rfl

/-- Settings that are given, or are the process default, are those that a fixed base is made
with. -/
theorem Defaults.build_of_settings {defaults : Defaults} {given : Option Settings} {st : Settings}
    (h : given.or defaults.loaded = some st) {n : ℤ} (hn : 1 < n) (b : ℤ) :
    (defaults.build given (.int b) (.int n)).1 = FixedBase.build (b % n).toNat n.toNat st := by
  rw [build, checkNumbers_int hn]
  rcases given with _ | st'
  · rw [Option.none_or] at h
    simp only [get, h]
  · obtain rfl := Option.some.inj h
    rfl

/-! ### A run of exponents -/

/-- The exponent that a value is, if it is an integer and not negative. -/
def exponent? : Datum → Option ℕ
  | .int e => if e < 0 then none else some e.toNat
  | _ => none

/-- The scratch after powers with several exponents, one after the other. -/
def afterPowers (fixed : FixedBase) (es : List Datum) (s : Scratch) : Scratch :=
  es.foldl (fun s e => (fixed.power e).after s) s

/-- What is no exponent is refused, and leaves the scratch as it was. -/
theorem run_power_of_exponent?_eq_none (fixed : FixedBase) {d : Datum} (h : exponent? d = none)
    (s : Scratch) : ∃ r, (fixed.power d).run s = .error (.refused r) s := by
  cases d with
  | int e =>
    have he : e < 0 := by
      by_contra he
      rw [exponent?, if_neg he] at h
      cases h
    exact ⟨.exponentNegative, by rw [power, if_pos he]; rfl⟩
  | _ => exact ⟨.exponentNotInteger _, rfl⟩

theorem eq_int_of_exponent?_eq_some {d : Datum} {e : ℕ} (h : exponent? d = some e) :
    d = .int e := by
  cases d with
  | int n =>
    rw [exponent?] at h
    split_ifs at h with hn
    obtain rfl := Option.some.inj h
    rw [Int.toNat_of_nonneg (not_lt.1 hn)]
  | _ => cases h

section

variable {g m w : ℕ} (hm : 0 < m) (hw : 1 ≤ w) (st : Settings) (W : ℕ)

include hm hw

/-- **What one power costs.** -/
theorem run_power_tabled (e : ℕ) (s : Scratch) :
    ((tabled g m st w W).power (.int e)).run s =
      .ok (g ^ e % m) (s.charge (powerSteps w W e) (powerEvents w W e)) := by
  rw [power, if_neg (by omega), Int.toNat_natCast, ← Table.afterPower_filled hw m g]
  exact Table.run_power hm g w W e s

/-- **What a run of powers costs.**  Only exponents that are accepted count, each as if it were
alone. -/
theorem afterPowers_tabled (es : List Datum) : ∀ s : Scratch,
    (tabled g m st w W).afterPowers es s =
      s.charge ((es.filterMap exponent?).map (powerSteps w W)).sum
        ((es.filterMap exponent?).flatMap (powerEvents w W)) := by
  induction es with
  | nil => exact fun s => s.charge_zero.symm
  | cons d es ih =>
    intro s
    rw [afterPowers, List.foldl_cons, ← afterPowers, ih, List.filterMap_cons]
    rcases he : exponent? d with _ | e
    · obtain ⟨r, hr⟩ := (tabled g m st w W).run_power_of_exponent?_eq_none he s
      rw [Metered.after, hr]
    · obtain rfl := eq_int_of_exponent?_eq_some he
      rw [Metered.after, run_power_tabled hm hw, Scratch.charge_charge, List.map_cons,
        List.sum_cons, List.flatMap_cons]

end

/-! ### The law -/

/-- **What a digit table costs.**  Let `k` be the number of binary digits that the table is asked to
cover, `w` the window and `W` the quotient `k / w`, rounded up.  Making the table takes `W · 2 ^ w`
steps.  A power then takes one step for each digit of the exponent, in the radix `2 ^ w`, that is
not zero and is among the `W` lowest, and two more if the exponent is `2 ^ (W · w)` or above: at
most `W` if it has no more than `W · w` binary digits, as it has if it has no more than `k`, and at
most `W + 2` always.  Exponents with more than `W · w` binary digits are warned of, each once, and
nothing else is recorded.  Values that are no exponents are refused and change nothing.  All this is
so from every scratch, and the steps and the warnings of a run of exponents are those of the
exponents that are accepted, one after the other. -/
theorem table_cost {b n : ℤ} (hn : 1 < n) {choice window bits : Datum}
    (hchoice : choice.isTrue = true) {w : ℕ} (hw : window.integer? = some (w : ℤ)) (hpos : 1 ≤ w)
    (hle : w ≤ 16) {k : ℕ} (hbits : Covers bits n.toNat k) :
    let W := k ⌈/⌉ w
    ∃ st, Settings.make choice window bits = .ok st ∧
      ∀ (defaults : Defaults) (given : Option Settings), given.or defaults.loaded = some st →
        ∀ s, ∃ fixed, (defaults.build given (.int b) (.int n)).1.run s =
            .ok fixed (s.charge (W * 2 ^ w) [.tableBuilt window.display W (W * 2 ^ w)]) ∧
          (∀ (e : ℕ) (s₁ : Scratch), ∃ v, (fixed.power (.int e)).run s₁ =
            .ok v (s₁.charge (powerSteps w W e) (powerEvents w W e))) ∧
          (∀ e, powerSteps w W e ≤ W + 2 ∧ (bitLength e ≤ W * w → powerSteps w W e ≤ W) ∧
            (bitLength e ≤ k → bitLength e ≤ W * w) ∧
            (powerEvents w W e).map Event.line =
              if W * w < bitLength e then
                ["WARNING commutative_crypto.fixed_base_exp: Exponent of " ++
                  toString (bitLength e) ++ " bits exceeds the " ++ toString (W * w) ++
                  "-bit precomputed table"]
              else []) ∧
          (∀ (d : Datum) (s₁ : Scratch), (∀ e : ℕ, d ≠ .int e) →
            ∃ r, (fixed.power d).run s₁ = .error (.refused r) s₁) ∧
          ∀ (es : List Datum) (s₁ : Scratch), fixed.afterPowers es s₁ =
            s₁.charge ((es.filterMap exponent?).map (powerSteps w W)).sum
              ((es.filterMap exponent?).flatMap (powerEvents w W)) := by
  intro W
  have hn0 : 0 < n := by omega
  have hnonneg := Int.emod_nonneg b hn0.ne'
  have hlt := Int.emod_lt_of_pos b hn0
  have hmodulus : 0 < n.toNat := by omega
  have hmake := Settings.make_eq hw (by omega) (by exact_mod_cast hle) hbits.isTableBits choice
  refine ⟨_, hmake, fun defaults given hgiven s => ?_⟩
  rw [Defaults.build_of_settings hgiven hn]
  refine ⟨_, run_build_covers (by omega) ⟨choice, window, bits⟩ hchoice hw hbits s,
    fun e s₁ => ⟨_, run_power_tabled hmodulus hpos _ W e s₁⟩, fun e => ?_, fun d s₁ hd => ?_, ?_⟩
  · refine ⟨powerSteps_le w W e, powerSteps_le_rows,
      fun h => h.trans (Table.le_ceilDiv_mul hpos k), ?_⟩
    rw [powerEvents]
    split_ifs <;> rfl
  · refine run_power_of_exponent?_eq_none _ (Option.eq_none_iff_forall_ne_some.2 fun e he => ?_) s₁
    exact hd e (eq_int_of_exponent?_eq_some he)
  · exact afterPowers_tabled hmodulus hpos _ W

theorem table_cost_rounded_up :
    ∃ st fixed, Settings.make (.bool true) (.int 3) .null = .ok st ∧
      (Defaults.build {} (some st) (.int (-3)) (.int 221)).1.run {} =
        .ok fixed { opCount := 24, log := [.tableBuilt "3" 3 24] } ∧
      fixed.afterPowers [.int 511, .int 512, .int (-1), .null] {} =
        { opCount := 5, log := [.exponentTooWide 10 9] } := by
  have hchoice : (Datum.bool true).isTrue = true := rfl
  have hwindow : (Datum.int 3).integer? = some ((3 : ℕ) : ℤ) := rfl
  have hbits : Covers .null (221 : ℤ).toNat 8 := Or.inl ⟨rfl, by decide⟩
  obtain ⟨st, hst, hbuild⟩ :=
    table_cost (b := -3) (n := 221) (by decide) hchoice hwindow (by decide) (by decide) hbits
  obtain ⟨fixed, hrun, -, -, -, hpowers⟩ := hbuild {} (some st) rfl {}
  refine ⟨st, fixed, hst, hrun, (hpowers _ {}).trans ?_⟩
  decide

end FixedBase

end CurveLock

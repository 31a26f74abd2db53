import CurveLock.Proofs.FixedBase.Cost

/-!
# The invariant of the digit table

A table of `W` rows for windows of `w` binary digits holds, in row `i` and at digit `d`, the power
of the base with exponent `d · 2 ^ (i · w)`, and besides the power with exponent `2 ^ (W · w)`
(`FixedBase.Table.Holds`).  A table that has just been made does so
(`FixedBase.Table.holds_filled`), a power only reads it, and reads nothing but entries that are
there (`FixedBase.Table.power_eq_checkedPower`).

* `FixedBase.Table.lookUps`, `FixedBase.Table.checkedPower`: the look-ups of a power, and a power
  for which each of them is checked;
* `FixedBase.Query`, `FixedBase.replies`: powers and looks at the table, one after the other;
* `FixedBase.table_invariant`: the invariant, from the options that a caller gives.
-/

namespace CurveLock

theorem Datum.position_natCast {i size : ℕ} (h : i < size) :
    (Datum.int i).position size = .ok i := by
  have hnonneg : ¬ (i : ℤ) < 0 := by omega
  have hin : 0 ≤ (i : ℤ) ∧ (i : ℤ) < size := by omega
  refine Metered.except_bind_eq_ok_iff.2 ⟨i, rfl, ?_⟩
  simp only [hnonneg, if_false, hin, and_self, if_true, Int.toNat_natCast]
  rfl

namespace FixedBase

namespace Table

/-! ### What a table holds -/

/-- A table holds the powers of the base `b` modulo `n`, in `W` rows for windows of `w` binary
digits. -/
structure Holds (t : Table) (b n : ℤ) (w W : ℕ) : Prop where
  window_eq : t.window = w
  length_rows : t.rows.length = W
  size_row : ∀ row ∈ t.rows, row.size = 2 ^ w
  entry_eq : ∀ i < W, ∀ d < 2 ^ w, ∃ v : ℕ,
    t.entry? i d = some v ∧ (v : ℤ) = b ^ (d * 2 ^ (i * w)) % n ∧ (v : ℤ) < n
  overflow_eq : (t.overflow : ℤ) = b ^ 2 ^ (W * w) % n

theorem size_powers (m g n : ℕ) : (powers m g n).size = n := by
  rw [powers, Array.size_map, Array.size_range]

theorem size_of_mem_rowsOf {m g w n : ℕ} {row : Array ℕ} (h : row ∈ rowsOf m g w n) :
    row.size = 2 ^ w := by
  obtain ⟨i, -, rfl⟩ := List.mem_map.1 h
  rw [size_powers, radix_eq]

/-- An entry of a table that is filled with the powers of `g`. -/
theorem entry?_filled {w W i d : ℕ} (hi : i < W) (hd : d < 2 ^ w) (m g : ℕ) :
    entry? (filled m g w W) i d = some (g ^ (d * 2 ^ (i * w)) % m) := by
  have hrow : (rowsOf m g w W)[i]? = some (powers m (g ^ radix w ^ i) (radix w)) := by
    rw [rowsOf, List.getElem?_map, List.getElem?_range hi, Option.map_some]
  have hentry : (powers m (g ^ radix w ^ i) (radix w))[d]? = some ((g ^ radix w ^ i) ^ d % m) := by
    rw [← radix_eq] at hd
    simp [powers, hd]
  rw [ entry?, filled, hrow, Option.bind_eq_bind, Option.bind_some, hentry, ← pow_mul, radix_pow,
    Nat.mul_comm]

section

variable {n : ℤ} (hn : 0 < n) (b : ℤ)

include hn

/-- Powers of the reduced base are those of the base. -/
theorem cast_pow_mod (k : ℕ) : (((b % n).toNat ^ k % n.toNat : ℕ) : ℤ) = b ^ k % n := by
  rw [Int.natCast_mod, Nat.cast_pow, Int.toNat_of_nonneg (Int.emod_nonneg b hn.ne'),
    Int.toNat_of_nonneg hn.le]
  exact ((Int.mod_modEq b n).pow k).eq

/-- **A table that is filled with powers holds them.** -/
theorem holds_filled (w W : ℕ) : (filled n.toNat (b % n).toNat w W).Holds b n w W where
  window_eq := rfl
  length_rows := length_rowsOf _ _ w W
  size_row _ := size_of_mem_rowsOf
  entry_eq i hi d hd := by
    refine ⟨_, entry?_filled hi hd _ _, cast_pow_mod hn b _, ?_⟩
    rw [cast_pow_mod hn b]
    exact Int.emod_lt_of_pos _ hn
  overflow_eq := by rw [filled, cast_pow_mod hn b, radix_pow]

end

/-! ### What a power reads -/

/-- The look-ups that a power with exponent `e` makes: with each row goes the digit that belongs to
it. -/
def lookUps (w : ℕ) (rows : List (Array ℕ)) (e : ℕ) : List (Array ℕ × ℕ) :=
  rows.mapIdx fun i row => (row, e / 2 ^ (i * w) % 2 ^ w)

/-- Multiplies by the entry that a look-up finds, unless the digit is zero.  A digit that the row
has no entry for is an error. -/
def multiplyFound (m acc : ℕ) (l : Array ℕ × ℕ) : Metered ℕ :=
  if l.2 = 0 then pure acc
  else
    match l.1[l.2]? with
    | some v => multiply m acc v
    | none => throw .indexOutOfRange

/-- The power of the base with exponent `e`, modulo `m`, where every look-up is checked. -/
def checkedPower (t : Table) (m e : ℕ) : Metered ℕ := do
  let acc ← (lookUps t.window t.rows e).foldlM (multiplyFound m) (1 % m)
  let rest := e / 2 ^ (t.rows.length * t.window)
  if rest = 0 then return acc
  Metered.record (.exponentTooWide (bitLength e) t.coveredBits)
  let high ← raise m t.overflow rest
  multiply m acc high

theorem lookUps_cons (w : ℕ) (row : Array ℕ) (rows : List (Array ℕ)) (e : ℕ) :
    lookUps w (row :: rows) e = (row, e % 2 ^ w) :: lookUps w rows (e / 2 ^ w) := by
  have shift : ∀ i, e / 2 ^ ((i + 1) * w) = e / 2 ^ w / 2 ^ (i * w) := fun i => by
    rw [Nat.succ_mul, Nat.add_comm, pow_add, Nat.div_div_eq_div_mul]
  simp only [lookUps, List.mapIdx_cons, Nat.zero_mul, pow_zero, Nat.div_one, shift]

/-- **Every digit that is read is an index of its row.** -/
theorem digit_lt_size {w : ℕ} {rows : List (Array ℕ)} (hrows : ∀ row ∈ rows, row.size = 2 ^ w)
    (e : ℕ) : ∀ l ∈ lookUps w rows e, l.2 < l.1.size := by
  intro l hl
  obtain ⟨i, hi, rfl⟩ := List.mem_mapIdx.1 hl
  rw [hrows _ (List.getElem_mem hi)]
  exact Nat.mod_lt _ (Nat.two_pow_pos w)

/-- The product of the entries for the digits is made of the look-ups, none of which fails. -/
theorem multiplyDigits_eq_foldlM (m w : ℕ) : ∀ {rows : List (Array ℕ)},
    (∀ row ∈ rows, row.size = 2 ^ w) → ∀ e acc, multiplyDigits m w rows e acc = do
      let acc ← (lookUps w rows e).foldlM (multiplyFound m) acc
      return (acc, e / 2 ^ (rows.length * w)) := by
  intro rows hrows
  induction rows with
  | nil =>
    intro e acc
    rw [multiplyDigits, List.length_nil, Nat.zero_mul, pow_zero, Nat.div_one]
    rfl
  | cons row rows ih =>
    intro e acc
    have hdigit : e % 2 ^ w < row.size := by
      rw [hrows row List.mem_cons_self]
      exact Nat.mod_lt e (Nat.two_pow_pos w)
    have hentry : row[e % 2 ^ w]? = some (row.getD (e % 2 ^ w) 0) := by
      rw [Array.getD, dif_pos hdigit, Array.getElem?_eq_getElem hdigit]
      rfl
    have rest : e / 2 ^ w / 2 ^ (rows.length * w) = e / 2 ^ ((row :: rows).length * w) := by
      rw [List.length_cons, Nat.succ_mul, Nat.add_comm, pow_add, Nat.div_div_eq_div_mul]
    have tail := ih fun r hr => hrows r (List.mem_cons_of_mem row hr)
    rw [multiplyDigits, lookUps_cons, List.foldlM_cons, multiplyFound, radix_eq]
    by_cases h0 : e % 2 ^ w = 0
    · simp only [h0, if_true, pure_bind, tail, rest]
    · simp only [h0, if_false, hentry, tail, rest, bind_assoc]

/-- **A power reads only entries that are there.** -/
theorem power_eq_checkedPower {t : Table} (hrows : ∀ row ∈ t.rows, row.size = 2 ^ t.window)
    (m e : ℕ) : t.power m e = t.checkedPower m e := by
  rw [power, checkedPower, multiplyDigits_eq_foldlM m t.window hrows]
  simp only [bind_assoc, pure_bind]

end Table

/-! ### Powers and looks at the table -/

/-- What can be asked of a fixed base. -/
inductive Query where
  /-- A power. -/
  | power (exponent : Datum)
  /-- An entry of the table. -/
  | entry (row digit : Datum)
  /-- The power that the table keeps for the digit after the last row. -/
  | overflow

variable (fixed : FixedBase)

/-- The program that answers a query. -/
def ask : Query → Metered ℕ
  | .power e => fixed.power e
  | .entry row digit => liftM (fixed.entry row digit)
  | .overflow => liftM (fixed.tableOrFail.map Table.overflow)

/-- The replies to some queries, one after the other, each in the scratch that the one before has
left. -/
def replies : List Query → Scratch → List (Except Failure ℕ)
  | [], _ => []
  | q :: qs, s => (fixed.ask q).result s :: replies qs ((fixed.ask q).after s)

/-- The reply to a query: the power of `b` modulo `n`, or what the table held at first. -/
def reply (b n : ℤ) : Query → Except Failure ℕ
  | .power e => answer b n e
  | .entry row digit => fixed.entry row digit
  | .overflow => fixed.tableOrFail.map Table.overflow

variable {fixed}

/-- **Powers leave the table as it is**: what is found in it does not depend on the queries
before. -/
theorem Serves.replies_eq {g m : ℕ} (h : fixed.Serves g m) (hm : 0 < m) (qs : List Query) :
    ∀ s, fixed.replies qs s = qs.map (fixed.reply g m) := by
  have one : ∀ q s, (fixed.ask q).result s = fixed.reply g m q := by
    intro q s
    cases q with
    | power e => exact h.result_power hm e s
    | entry row digit => exact Metered.result_lift _ s
    | overflow => exact Metered.result_lift _ s
  induction qs with
  | nil => exact fun s => rfl
  | cons q qs ih =>
    intro s
    rw [replies, List.map_cons, one, ih]

theorem serves_tabled (g m : ℕ) (st : Settings) (w W : ℕ) : (tabled g m st w W).Serves g m where
  base_eq := rfl
  modulus_eq := rfl
  table_eq := by
    rintro t ⟨⟩
    exact ⟨w, W, rfl⟩

theorem reply_emod (b n : ℤ) : fixed.reply (b % n) n = fixed.reply b n := by
  funext q
  cases q with
  | power e => rw [reply, reply, answer_emod]
  | _ => rfl

theorem entry_of_entry? {t : Table} (ht : fixed.table = some t) {i d v : ℕ}
    (h : t.entry? i d = some v) : fixed.entry (.int i) (.int d) = .ok v := by
  obtain ⟨row, hrow, hv⟩ := Option.bind_eq_some_iff.1 h
  obtain ⟨hi, -⟩ := List.getElem?_eq_some_iff.1 hrow
  obtain ⟨hd, hentry⟩ := Array.getElem?_eq_some_iff.1 hv
  have hvalue : row.getD d 0 = v := by
    rw [Array.getD, dif_pos hd]
    exact hentry
  refine Metered.except_bind_eq_ok_iff.2 ⟨t, by rw [tableOrFail, ht], ?_⟩
  refine Metered.except_bind_eq_ok_iff.2 ⟨i, Datum.position_natCast hi, ?_⟩
  rw [hrow]
  refine Metered.except_bind_eq_ok_iff.2 ⟨d, Datum.position_natCast hd, ?_⟩
  rw [hvalue]
  rfl

/-! ### The invariant -/

/-- One row less would not cover the binary digits. -/
theorem Table.pred_ceilDiv_mul_lt {w bits : ℕ} (hw : 1 ≤ w) (hbits : 1 ≤ bits) :
    (bits ⌈/⌉ w - 1) * w < bits := by
  by_contra hle
  have hless : bits ⌈/⌉ w ≤ bits ⌈/⌉ w - 1 := by
    rw [ceilDiv_le_iff_le_mul (Nat.lt_of_succ_le hw), Nat.mul_comm]
    exact not_lt.1 hle
  have hnone : bits ⌈/⌉ w - 1 = 0 := by omega
  rw [hnone, Nat.zero_mul] at hle
  exact hle hbits

theorem Covers.one_le {bits : Datum} {m k : ℕ} (h : Covers bits m k) (hm : 0 < m) : 1 ≤ k := by
  rcases h with ⟨-, rfl⟩ | ⟨-, hk⟩
  · exact lt_bitLength_iff.2 (by rwa [pow_zero])
  · exact hk

/-- **The invariant of the digit table.**  Let `k` be the number of binary digits that the table is
asked to cover, `w` the window and `W` the quotient `k / w`, rounded up, so that `W` windows cover
the digits and `W - 1` do not.  The table that is made for a base `b` and a modulus `n` has `W` rows
of `2 ^ w` entries; the entry in row `i` at digit `d` is the power of `b` with exponent `d · 2 ^ (i
· w)`, modulo `n` and below it, and the power that is kept besides has the exponent `2 ^ (W · w)`.
These are the entries that a caller finds.  Every digit that a power reads is an index of its row,
so the power is what it would be if every look-up were checked.  Whatever powers are asked for, in
any order and with looks at the table in between, the table stays as it was made. -/
theorem table_invariant {b n : ℤ} (hn : 1 < n) {choice window bits : Datum}
    (hchoice : choice.isTrue = true) {w : ℕ} (hw : window.integer? = some (w : ℤ)) (hpos : 1 ≤ w)
    (hle : w ≤ 16) {k : ℕ} (hbits : Covers bits n.toNat k) :
    let W := k ⌈/⌉ w
    (k ≤ W * w ∧ (W - 1) * w < k) ∧
    ∃ st, Settings.make choice window bits = .ok st ∧
      ∀ (defaults : Defaults) (given : Option Settings), given.or defaults.loaded = some st →
        ∀ s, ∃ fixed s' t, (defaults.build given (.int b) (.int n)).1.run s = .ok fixed s' ∧
          fixed.table = some t ∧ t.Holds b n w W ∧
          (∀ i d v : ℕ, t.entry? i d = some v → fixed.entry (.int i) (.int d) = .ok v) ∧
          (∀ e : ℕ, (∀ l ∈ Table.lookUps w t.rows e, l.2 < l.1.size) ∧
            fixed.power (.int e) = t.checkedPower n.toNat e) ∧
          ∀ (qs : List Query) (s₁ : Scratch), fixed.replies qs s₁ = qs.map (fixed.reply b n) := by
  intro W
  have hn0 : 0 < n := by omega
  have hnonneg := Int.emod_nonneg b hn0.ne'
  have hlt := Int.emod_lt_of_pos b hn0
  have hmake := Settings.make_eq hw (by omega) (by exact_mod_cast hle) hbits.isTableBits choice
  refine ⟨⟨Table.le_ceilDiv_mul hpos k, ?_⟩, _, hmake, fun defaults given hgiven s => ?_⟩
  · exact Table.pred_ceilDiv_mul_lt hpos (hbits.one_le (by omega))
  -- the table that is made is the one that is filled with the powers of the reduced base
  rw [Defaults.build_of_settings hgiven hn]
  have hholds := Table.holds_filled hn0 b w W
  refine ⟨_, _, _, run_build_covers (by omega) ⟨choice, window, bits⟩ hchoice hw hbits s, rfl,
    hholds, fun i d v => entry_of_entry? rfl,
    fun e => ⟨Table.digit_lt_size hholds.size_row e, ?_⟩, fun qs s₁ => ?_⟩
  · rw [power, if_neg (by omega), Int.toNat_natCast]
    exact Table.power_eq_checkedPower hholds.size_row _ e
  · rw [(serves_tabled _ _ _ w W).replies_eq (by omega), Int.toNat_of_nonneg hnonneg,
      Int.toNat_of_nonneg hn0.le, reply_emod]

theorem table_invariant_negative_base :
    ∃ st fixed s' t, Settings.make (.bool true) (.int 3) (.int 4) = .ok st ∧
      (Defaults.build {} (some st) (.int (-3)) (.int 221)).1.run {} = .ok fixed s' ∧
      fixed.table = some t ∧ t.rows.length = 2 ∧
      fixed.replies [.entry (.int 1) (.int 7), .power (.int 100), .power .null, .overflow,
          .entry (.int 1) (.int 7)] {} =
        [.ok 152, .ok 81, .error (.refused (.exponentNotInteger .null)), .ok 120, .ok 152] := by
  have hchoice : (Datum.bool true).isTrue = true := rfl
  have hwindow : (Datum.int 3).integer? = some ((3 : ℕ) : ℤ) := rfl
  have hbits : Covers (.int 4) (221 : ℤ).toNat 4 := Or.inr ⟨rfl, by decide⟩
  obtain ⟨-, st, hst, hbuild⟩ :=
    table_invariant (b := -3) (n := 221) (by decide) hchoice hwindow (by decide) (by decide) hbits
  obtain ⟨fixed, s', t, hrun, htable, hholds, hentries, -, hreplies⟩ := hbuild {} (some st) rfl {}
  have hW : 4 ⌈/⌉ 3 = 2 := rfl
  rw [hW] at hholds
  have hentry : fixed.entry (.int 1) (.int 7) = .ok 152 := by
    obtain ⟨v, hv, hvalue, -⟩ := hholds.entry_eq 1 (by decide) 7 (by decide)
    norm_num at hvalue
    obtain rfl : v = 152 := by exact_mod_cast hvalue
    exact hentries 1 7 152 hv
  have hoverflow : fixed.tableOrFail.map Table.overflow = .ok 120 := by
    have hvalue := hholds.overflow_eq
    norm_num at hvalue
    rw [tableOrFail, htable]
    exact congrArg Except.ok (by exact_mod_cast hvalue)
  refine ⟨st, fixed, s', t, hst, hrun, htable, hholds.length_rows, (hreplies _ {}).trans ?_⟩
  simp only [List.map_cons, List.map_nil, reply, hentry, hoverflow]
  rfl

end FixedBase

end CurveLock

import CurveLock.FixedBase.Table
import CurveLock.Proofs.Number.Power

/-!
# What a digit table holds, and what it answers

The table of a base `g` is filled with the powers `g ^ (d · r ^ i)`, where `r` is the number of
digits that a window can spell, `i` the row and `d` the digit (`Table.run_build`).  Multiplied
together, the entries for the digits of an exponent make its power, and what is left of the exponent
above the rows is made up for by the power that the table keeps besides (`Table.run_power`).

Each of these programs is described by one equation on its run, with the steps that it counts.
-/

namespace CurveLock

namespace FixedBase

theorem run_multiply (m a b : ℕ) (s : Scratch) :
    (multiply m a b).run s = .ok (a * b % m) { s with opCount := s.opCount + 1 } := rfl

theorem run_raise (m b e : ℕ) (s : Scratch) :
    (raise m b e).run s = .ok (b ^ e % m) { s with opCount := s.opCount + 1 } := by
  rw [← powMod_eq]
  rfl

namespace Table

theorem radix_eq (w : ℕ) : radix w = 2 ^ w := by rw [radix, Nat.one_shiftLeft]

theorem radix_pow (w i : ℕ) : radix w ^ i = 2 ^ (i * w) := by
  rw [radix_eq, ← pow_mul, Nat.mul_comm]

theorem radix_pos (w : ℕ) : 0 < radix w := by
  rw [radix_eq]
  exact Nat.two_pow_pos w

/-! ### Rows -/

/-- The powers of `g` modulo `m` with exponents below `n`. -/
def powers (m g n : ℕ) : Array ℕ := (Array.range n).map fun d => g ^ d % m

theorem push_powers (m g n : ℕ) : (powers m g n).push (g ^ n % m) = powers m g (n + 1) := by
  rw [powers, powers, Array.range_succ, Array.map_append, Array.push_eq_append,
    Array.map_singleton]

theorem powers_one (m g : ℕ) : powers m g 1 = #[1 % m] := by
  have one : Array.range 1 = #[0] := rfl
  rw [powers, one, Array.map_singleton, pow_zero]

theorem powers_getD (m g : ℕ) {n d : ℕ} (h : d < n) : (powers m g n).getD d 0 = g ^ d % m := by
  simp [powers, h]

/-- Only the residue of the base matters. -/
theorem powers_mod (m g n : ℕ) : powers m (g % m) n = powers m g n := by
  simp only [powers, ← Nat.pow_mod]

/-- **A row is extended by the next powers.** -/
theorem run_extendRow (m g n : ℕ) : ∀ (k : ℕ) (s : Scratch),
    (extendRow m g n (powers m g (k + 1)) (g ^ k % m)).run s =
      .ok (powers m g (k + n + 1), g ^ (k + n) % m) { s with opCount := s.opCount + n } := by
  induction n with
  | zero => exact fun k s => rfl
  | succ n ih =>
    intro k s
    have next : g ^ k % m * g % m = g ^ (k + 1) % m := by rw [Nat.mod_mul_mod, ← pow_succ]
    have shift : ∀ i, i + 1 + n = i + (n + 1) := fun i => by omega
    rw [extendRow, EStateM.run_bind, run_multiply, next]
    simp only [push_powers, ih, shift]

/-- The first row of the table that starts from a power `g` of the base, and the power with which
the row after it starts. -/
theorem run_extendRow_one (m g w : ℕ) (s : Scratch) :
    (extendRow m g (radix w - 1) #[1 % m] (1 % m)).run s =
      .ok (powers m g (radix w), g ^ (radix w - 1) % m)
        { s with opCount := s.opCount + (radix w - 1) } := by
  have hrun := run_extendRow m g (radix w - 1) 0 s
  have whole : radix w - 1 + 1 = radix w := Nat.sub_add_cancel (radix_pos w)
  simp only [Nat.zero_add, whole, powers_one, pow_zero] at hrun
  exact hrun

/-! ### The table -/

/-- The rows for the digits of a base `g`. -/
def rowsOf (m g w n : ℕ) : List (Array ℕ) :=
  (List.range n).map fun i => powers m (g ^ radix w ^ i) (radix w)

/-- The table of a base `g` with `n` rows. -/
def filled (m g w n : ℕ) : Table := ⟨w, rowsOf m g w n, g ^ radix w ^ n % m⟩

theorem length_rowsOf (m g w n : ℕ) : (rowsOf m g w n).length = n := by
  rw [rowsOf, List.length_map, List.length_range]

theorem rowsOf_mod (m g w n : ℕ) : rowsOf m (g % m) w n = rowsOf m g w n := by
  refine List.map_congr_left fun i _ => ?_
  rw [← powers_mod m ((g % m) ^ _), ← Nat.pow_mod, powers_mod]

/-- The rows after the first are those of the power with which they start. -/
theorem rowsOf_succ (m g w n : ℕ) :
    rowsOf m g w (n + 1) = powers m g (radix w) :: rowsOf m (g ^ radix w % m) w n := by
  rw [rowsOf_mod, rowsOf, rowsOf, List.range_succ_eq_map, List.map_cons, pow_zero, pow_one,
    List.map_map]
  congr 1
  refine List.map_congr_left fun i _ => ?_
  rw [Function.comp_apply, ← pow_mul, ← pow_succ']

/-- **The rows are built one from the last entry of the other.** -/
theorem run_buildRows (m w n : ℕ) : ∀ (g : ℕ) (s : Scratch), g < m →
    (buildRows m w n g).run s = .ok (rowsOf m g w n, g ^ radix w ^ n % m)
      { s with opCount := s.opCount + n * radix w } := by
  induction n with
  | zero =>
    intro g s hg
    rw [pow_zero, pow_one, Nat.mod_eq_of_lt hg, Nat.zero_mul]
    rfl
  | succ n ih =>
    intro g s hg
    have hpos := radix_pos w
    have next : g ^ (radix w - 1) % m * g % m = g ^ radix w % m := by
      rw [Nat.mod_mul_mod, ← pow_succ, Nat.sub_add_cancel hpos]
    rw [buildRows, EStateM.run_bind, run_extendRow_one]
    simp only [EStateM.run_bind, run_multiply, next, ih _ _ (Nat.mod_lt _ (by omega))]
    rw [rowsOf_succ, ← Nat.pow_mod, ← pow_mul, ← pow_succ', Nat.succ_mul]
    have steps : s.opCount + (radix w - 1) + 1 + n * radix w =
        s.opCount + (n * radix w + radix w) := by omega
    rw [steps]
    rfl

/-- **A table is filled with the powers of its base**, at the cost of one step for each entry. -/
theorem run_build {g m : ℕ} (hg : g < m) (w bits : ℕ) (s : Scratch) :
    (build g m w bits).run s = .ok (filled m g w (rowCount bits w))
      { s with opCount := s.opCount + rowCount bits w * radix w } := by
  rw [build, EStateM.run_bind, run_buildRows m w _ g s hg]
  rfl

/-! ### Powers from the table -/

/-- How many of the `n` lowest digits of a number in the radix `r` are not zero. -/
def digitCount (r : ℕ) : ℕ → ℕ → ℕ
  | 0, _ => 0
  | n + 1, e => (if e % r = 0 then 0 else 1) + digitCount r n (e / r)

/-- **The entries for the digits of an exponent make its power.** -/
theorem run_multiplyDigits (m w n : ℕ) : ∀ (g e acc : ℕ) (s : Scratch), acc < m →
    (multiplyDigits m w (rowsOf m g w n) e acc).run s =
      .ok (acc * g ^ (e % radix w ^ n) % m, e / radix w ^ n)
        { s with opCount := s.opCount + digitCount (radix w) n e } := by
  induction n with
  | zero =>
    intro g e acc s hacc
    rw [pow_zero, Nat.mod_one, pow_zero, Nat.mul_one, Nat.mod_eq_of_lt hacc, Nat.div_one]
    rfl
  | succ n ih =>
    intro g e acc s hacc
    have hdigit : e % radix w < radix w := Nat.mod_lt e (radix_pos w)
    -- the lowest digit is looked up in this row, the others in the rows of the power after it
    have value : acc * g ^ (e % radix w) % m * (g ^ radix w % m) ^ (e / radix w % radix w ^ n) % m =
        acc * g ^ (e % radix w ^ (n + 1)) % m := by
      rw [Nat.mod_mul_mod, Nat.mul_mod, ← Nat.pow_mod, ← Nat.mul_mod, ← pow_mul, Nat.mul_assoc,
        ← pow_add, pow_succ', Nat.mod_mul]
    have rest : e / radix w / radix w ^ n = e / radix w ^ (n + 1) := by
      rw [Nat.div_div_eq_div_mul, pow_succ']
    rw [rowsOf_succ, multiplyDigits, digitCount]
    by_cases h0 : e % radix w = 0
    · rw [h0, pow_zero, Nat.mul_one, Nat.mod_eq_of_lt hacc] at value
      simp only [h0, if_true, pure_bind]
      rw [ih _ _ _ _ hacc, value, rest, Nat.zero_add]
    · simp only [h0, if_false]
      rw [EStateM.run_bind, run_multiply, powers_getD _ _ hdigit, Nat.mul_mod_mod]
      simp only [ih _ _ _ _ (Nat.mod_lt _ (by omega : 0 < m)), value, rest, Nat.add_assoc]

/-- The scratch after a power: one step for each digit other than zero, and two steps and an entry
of the log where the exponent reaches above the rows. -/
def afterPower (t : Table) (e : ℕ) (s : Scratch) : Scratch :=
  let steps := s.opCount + digitCount (radix t.window) t.rows.length e
  if e / radix t.window ^ t.rows.length = 0 then { s with opCount := steps }
  else
    { s with
      opCount := steps + 2
      log := s.log ++ [.exponentTooWide (bitLength e) t.coveredBits] }

/-- **The power from the table is the power.** -/
theorem run_power {m : ℕ} (hm : 0 < m) (g w n e : ℕ) (s : Scratch) :
    ((filled m g w n).power m e).run s = .ok (g ^ e % m) ((filled m g w n).afterPower e s) := by
  have low : 1 % m * g ^ (e % radix w ^ n) % m = g ^ (e % radix w ^ n) % m := by
    rw [Nat.mod_mul_mod, Nat.one_mul]
  have split := Nat.mod_add_div e (radix w ^ n)
  rw [power, afterPower]
  simp only [filled, length_rowsOf]
  rw [EStateM.run_bind, run_multiplyDigits m w n g e _ s (Nat.mod_lt 1 hm), low]
  by_cases h0 : e / radix w ^ n = 0
  · rw [h0, Nat.mul_zero, Nat.add_zero] at split
    simp only [h0, if_true, split]
    rfl
  · have product : g ^ (e % radix w ^ n) % m * ((g ^ radix w ^ n % m) ^ (e / radix w ^ n) % m) % m =
        g ^ e % m := by
      rw [← Nat.pow_mod, ← Nat.mul_mod, ← pow_mul, ← pow_add, split]
    simp only [h0, if_false, EStateM.run_bind, Metered.run_record, run_raise, run_multiply, product]

end Table

end FixedBase

end CurveLock

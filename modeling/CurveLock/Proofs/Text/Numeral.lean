import CurveLock.Text.Numeral
import Mathlib.Data.Nat.Digits.Defs

/-!
# The size of what a numeral spells

The grammar of numerals admits as many digits as may be written, so an integer that has been read
can also be written (`Numeral.natAbs_lt_of_read?`).
-/

namespace CurveLock

theorem Text.lt_of_decimalDigit? {c : Char} {d : ℕ} (h : decimalDigit? c = some d) : d < 10 := by
  obtain ⟨z, hfind, rfl⟩ := Option.map_eq_some_iff.1 h
  have hrange := List.find?_some hfind
  simp only [Bool.and_eq_true, decide_eq_true_eq] at hrange
  omega

namespace Numeral

theorem lt_of_digits? {cs : List Char} :
    ∀ {ds : List ℕ}, digits? cs = some ds → ∀ d ∈ ds, d < 10 := by
  -- with and without an underscore, the rest of the numeral is read in the same way
  have step {c : Char} {rest : Option (List ℕ)} {ds : List ℕ}
      (ih : ∀ {ds : List ℕ}, rest = some ds → ∀ d ∈ ds, d < 10)
      (h : (do return (← Text.decimalDigit? c) :: (← rest)) = some ds) : ∀ d ∈ ds, d < 10 := by
    simp only [Option.bind_eq_bind, Option.bind_eq_some_iff, Option.pure_def,
      Option.some.injEq] at h
    obtain ⟨a, ha, as, has, rfl⟩ := h
    exact List.forall_mem_cons.2 ⟨Text.lt_of_decimalDigit? ha, ih has⟩
  induction cs using digits?.induct with
  | case1 => exact fun h => nomatch h
  | case2 c =>
    intro ds h
    obtain ⟨a, ha, rfl⟩ := Option.map_eq_some_iff.1 h
    exact List.forall_mem_singleton.2 (Text.lt_of_decimalDigit? ha)
  | case3 c rest ih => exact fun h => step ih h
  | case4 c rest hne hunderscore ih =>
    intro ds h
    rw [digits?.eq_4 c rest hne hunderscore] at h
    exact step ih h

theorem value_eq_ofDigits (ds : List ℕ) : value ds = Nat.ofDigits 10 ds.reverse := by
  rw [Nat.ofDigits_eq_foldr, List.foldr_reverse, value]
  simp only [Nat.cast_id, Nat.add_comm]

theorem value_lt {ds : List ℕ} (h : ∀ d ∈ ds, d < 10) : value ds < 10 ^ ds.length := by
  rw [value_eq_ofDigits, ← List.length_reverse]
  exact Nat.ofDigits_lt_base_pow_length (by decide) fun d hd => h d (List.mem_reverse.1 hd)

theorem lt_of_magnitude? {cs : List Char} {n : ℕ} (h : magnitude? cs = some n) :
    n < 10 ^ digitLimit := by
  rw [magnitude?] at h
  rcases hds : digits? cs with _ | ds
  · rw [hds] at h
    cases h
  · simp only [hds] at h
    split_ifs at h with hlength
    obtain rfl := Option.some.inj h
    exact (value_lt (lt_of_digits? hds)).trans_le (Nat.pow_le_pow_right (by decide) hlength)

/-- **What has been read can be written.** -/
theorem natAbs_lt_of_read? {s : String} {n : ℤ} (h : read? s = some n) :
    n.natAbs < 10 ^ digitLimit := by
  rw [read?.eq_def] at h
  split at h
  all_goals
    obtain ⟨m, hm, rfl⟩ := Option.map_eq_some_iff.1 h
    obtain ⟨k, hk, hkm⟩ := Option.bind_eq_some_iff.1 hm
    obtain rfl := Option.some.inj hkm
    simpa using lt_of_magnitude? hk

end Numeral

end CurveLock

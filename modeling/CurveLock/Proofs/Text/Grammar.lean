import CurveLock.Proofs.Text.Blank
import CurveLock.Proofs.Text.Numeral

/-!
# The grammar of numerals

Which texts spell which integers (`Numeral.Spells`), said without the reader: between blanks stands
at most one sign and then a row of decimal digits, with single underscores between them, of no more
digits than may be written.  The reader accepts these texts and no others, and reads the integer
that they spell (`Numeral.read?_eq_some_iff`).

* `Text.IsDigit`: the decimal digits of all scripts;
* `Numeral.Digits`, `Numeral.Sign`: the two parts of a numeral.
-/

namespace CurveLock

namespace Text

/-- The character is the decimal digit `d` of some script. -/
def IsDigit (c : Char) (d : ℕ) : Prop := d < 10 ∧ ∃ z ∈ zeroDigits, c.toNat = z + d

/-- No two scripts share a digit. -/
theorem eq_of_mem_zeroDigits {y z n : ℕ} (hy : y ∈ zeroDigits) (hz : z ∈ zeroDigits)
    (hyn : y ≤ n ∧ n < y + 10) (hzn : z ≤ n ∧ n < z + 10) : y = z := by
  have apart : ∀ y ∈ zeroDigits, ∀ z ∈ zeroDigits, y = z ∨ y + 10 ≤ z ∨ z + 10 ≤ y := by
    decide +kernel
  have h := apart y hy z hz
  omega

theorem decimalDigit?_eq_some_iff {c : Char} {d : ℕ} : decimalDigit? c = some d ↔ IsDigit c d := by
  rw [decimalDigit?, Option.map_eq_some_iff]
  constructor
  · rintro ⟨z, hfind, rfl⟩
    have hrange := List.find?_some hfind
    simp only [Bool.and_eq_true, decide_eq_true_eq] at hrange
    exact ⟨by omega, z, List.mem_of_find?_eq_some hfind, by omega⟩
  · rintro ⟨hd, z, hz, hc⟩
    rcases hfind : zeroDigits.find? fun z => z ≤ c.toNat && c.toNat < z + 10 with _ | y
    · have hnone := List.find?_eq_none.1 hfind z hz
      simp only [Bool.and_eq_true, decide_eq_true_eq] at hnone
      omega
    · have hrange := List.find?_some hfind
      simp only [Bool.and_eq_true, decide_eq_true_eq] at hrange
      obtain rfl := eq_of_mem_zeroDigits (List.mem_of_find?_eq_some hfind) hz hrange (by omega)
      exact ⟨y, rfl, by omega⟩

/-- A digit is none of the other characters of a numeral. -/
theorem IsDigit.plain {c : Char} {d : ℕ} (h : IsDigit c d) :
    isNumeralBlank c = false ∧ c ≠ '+' ∧ c ≠ '-' ∧ c ≠ '_' := by
  obtain ⟨hd, z, hz, hc⟩ := h
  have all : ∀ z ∈ zeroDigits, ∀ d < 10, isNumeralBlank (Char.ofNat (z + d)) = false ∧
      Char.ofNat (z + d) ≠ '+' ∧ Char.ofNat (z + d) ≠ '-' ∧ Char.ofNat (z + d) ≠ '_' := by
    decide +kernel
  rw [← Char.ofNat_toNat c, hc]
  exact all z hz d hd

end Text

namespace Numeral

/-! ### Rows of digits -/

/-- The digits of an unsigned numeral: there is at least one, and an underscore stands only between
two digits. -/
inductive Digits : List Char → List ℕ → Prop where
  /-- One digit. -/
  | single {c d} : Text.IsDigit c d → Digits [c] [d]
  /-- A digit before others. -/
  | cons {c d cs ds} : Text.IsDigit c d → Digits cs ds → Digits (c :: cs) (d :: ds)
  /-- A digit before others, with an underscore after it. -/
  | underscore {c d cs ds} : Text.IsDigit c d → Digits cs ds → Digits (c :: '_' :: cs) (d :: ds)

namespace Digits

variable {cs : List Char} {ds : List ℕ}

theorem exists_cons (h : Digits cs ds) : ∃ c d rest, cs = c :: rest ∧ Text.IsDigit c d := by
  cases h with
  | single hc | cons hc | underscore hc => exact ⟨_, _, _, rfl, hc⟩

/-- A row of digits ends with a digit. -/
theorem isDigit_getLast? (h : Digits cs ds) : ∀ c ∈ cs.getLast?, ∃ d, Text.IsDigit c d := by
  have skip {c : Char} {cs : List Char} (hne : cs ≠ []) : (c :: cs).getLast? = cs.getLast? := by
    rw [List.getLast?_cons, List.getLast?_eq_some_getLast hne, Option.getD_some]
  induction h with
  | single hc =>
    rintro c ⟨⟩
    exact ⟨_, hc⟩
  | cons hc hcs ih =>
    obtain ⟨c', d', rest, rfl, -⟩ := hcs.exists_cons
    rwa [skip (List.cons_ne_nil _ _)]
  | underscore hc hcs ih =>
    obtain ⟨c', d', rest, rfl, -⟩ := hcs.exists_cons
    rwa [skip (List.cons_ne_nil _ _), skip (List.cons_ne_nil _ _)]

end Digits

/-- What has been read is a digit and the digits after it, wherever these have been read from. -/
theorem digits_of_bind {c : Char} {rest : List Char} {r : Option (List ℕ)} {ds : List ℕ}
    (hrest : ∀ {es}, r = some es → Digits rest es)
    (h : (do return (← Text.decimalDigit? c) :: (← r)) = some ds) :
    ∃ d es, ds = d :: es ∧ Text.IsDigit c d ∧ Digits rest es := by
  simp only [Option.bind_eq_bind, Option.bind_eq_some_iff, Option.pure_def,
    Option.some.injEq] at h
  obtain ⟨d, hd, es, hes, rfl⟩ := h
  exact ⟨d, es, rfl, Text.decimalDigit?_eq_some_iff.1 hd, hrest hes⟩

theorem digits_of_digits? {cs : List Char} :
    ∀ {ds : List ℕ}, digits? cs = some ds → Digits cs ds := by
  induction cs using digits?.induct with
  | case1 =>
    intro ds h
    cases h
  | case2 c =>
    intro ds h
    obtain ⟨d, hd, rfl⟩ := Option.map_eq_some_iff.1 h
    exact .single (Text.decimalDigit?_eq_some_iff.1 hd)
  | case3 c rest ih =>
    intro ds h
    obtain ⟨d, es, rfl, hc, hrest⟩ := digits_of_bind ih h
    exact .underscore hc hrest
  | case4 c rest hne hunderscore ih =>
    intro ds h
    rw [digits?.eq_4 c rest hne hunderscore] at h
    obtain ⟨d, es, rfl, hc, hrest⟩ := digits_of_bind ih h
    exact .cons hc hrest

/-- **The digits that are read are those that stand there.** -/
theorem digits?_eq_some_iff {cs : List Char} {ds : List ℕ} :
    digits? cs = some ds ↔ Digits cs ds := by
  refine ⟨digits_of_digits?, fun h => ?_⟩
  induction h with
  | single hc => rw [digits?, Text.decimalDigit?_eq_some_iff.2 hc, Option.map_some]
  | @cons c d cs ds hc hcs ih =>
    obtain ⟨c', d', rest, rfl, hc'⟩ := hcs.exists_cons
    rw [digits?.eq_4 c _ (by simp) (by rintro r ⟨⟩; exact hc'.plain.2.2.2 rfl),
      Text.decimalDigit?_eq_some_iff.2 hc, ih]
    rfl
  | underscore hc hcs ih =>
    rw [digits?, Text.decimalDigit?_eq_some_iff.2 hc, ih]
    rfl

/-! ### Numerals -/

/-- What may stand before the digits, and what it makes of the number that they are. -/
inductive Sign : List Char → ℤ → Prop where
  /-- No sign. -/
  | none : Sign [] 1
  /-- A plus sign, which changes nothing. -/
  | plus : Sign ['+'] 1
  /-- A minus sign. -/
  | minus : Sign ['-'] (-1)

/-- The text spells the integer: between blanks, a sign or none, and digits, no more than may be
written. -/
def Spells (s : String) (n : ℤ) : Prop :=
  ∃ sign σ body ds, Text.Padded Text.isNumeralBlank s.toList (sign ++ body) ∧ Sign sign σ ∧
    Digits body ds ∧ ds.length ≤ digitLimit ∧ n = σ * (Nat.ofDigits 10 ds.reverse : ℕ)

theorem magnitude?_eq_some_iff {cs : List Char} {n : ℕ} : magnitude? cs = some n ↔
    ∃ ds, Digits cs ds ∧ ds.length ≤ digitLimit ∧ n = Nat.ofDigits 10 ds.reverse := by
  rw [magnitude?]
  constructor
  · rcases hds : digits? cs with _ | ds
    · intro h
      cases h
    · intro h
      simp only at h
      split_ifs at h with hlength
      obtain rfl := Option.some.inj h
      exact ⟨ds, digits?_eq_some_iff.1 hds, hlength, value_eq_ofDigits ds⟩
  · rintro ⟨ds, hds, hlength, rfl⟩
    simp only [digits?_eq_some_iff.2 hds, if_pos hlength, value_eq_ofDigits]

/-- A signed row of digits has no blanks at its ends. -/
theorem strip_eq_of_padded {sign body cs : List Char} {σ : ℤ} {ds : List ℕ}
    (h : Text.Padded Text.isNumeralBlank cs (sign ++ body)) (hsign : Sign sign σ)
    (hbody : Digits body ds) : Text.strip Text.isNumeralBlank cs = sign ++ body := by
  obtain ⟨c, d, rest, rfl, hc⟩ := hbody.exists_cons
  refine Text.strip_eq_of_padded h ?_ fun e he => ?_
  · cases hsign with
    | none =>
      rintro e ⟨⟩
      exact hc.plain.1
    | plus | minus =>
      rintro e ⟨⟩
      rfl
  · rw [List.getLast?_append, List.getLast?_eq_some_getLast (List.cons_ne_nil c rest),
      Option.some_or, ← List.getLast?_eq_some_getLast] at he
    obtain ⟨d', hd'⟩ := hbody.isDigit_getLast? e he
    exact hd'.plain.1

/-- A sign is put before the number that has been read, if one has been read. -/
theorem map_natCast_eq_some_iff {x : Option ℕ} {f : ℤ → ℤ} {n : ℤ} :
    Option.map f (do return ((← x : ℕ) : ℤ)) = some n ↔ ∃ m, x = some m ∧ f m = n := by
  cases x <;> simp

/-- **The reader reads what a text spells, and nothing else.** -/
theorem read?_eq_some_iff {s : String} {n : ℤ} : read? s = some n ↔ Spells s n := by
  constructor
  · intro h
    have hpadded := Text.padded_strip Text.isNumeralBlank s.toList
    rw [read?.eq_def] at h
    split at h
    all_goals
      rename_i hstrip
      obtain ⟨m, hm, rfl⟩ := map_natCast_eq_some_iff.1 h
      obtain ⟨ds, hds, hlength, rfl⟩ := magnitude?_eq_some_iff.1 hm
    · rw [hstrip] at hpadded
      exact ⟨['-'], -1, _, ds, hpadded, .minus, hds, hlength, (neg_one_mul _).symm⟩
    · rw [hstrip] at hpadded
      exact ⟨['+'], 1, _, ds, hpadded, .plus, hds, hlength, (one_mul _).symm⟩
    · exact ⟨[], 1, _, ds, hpadded, .none, hds, hlength, (one_mul _).symm⟩
  · rintro ⟨sign, σ, body, ds, hpadded, hsign, hds, hlength, rfl⟩
    have hmagnitude := magnitude?_eq_some_iff.2 ⟨ds, hds, hlength, rfl⟩
    rw [read?.eq_def, strip_eq_of_padded hpadded hsign hds]
    cases hsign with
    | none =>
      obtain ⟨c, d, rest, rfl, hc⟩ := hds.exists_cons
      obtain ⟨-, hplus, hminus, -⟩ := hc.plain
      split
      · rename_i heq
        exact absurd (List.cons.inj heq).1 hminus
      · rename_i heq
        exact absurd (List.cons.inj heq).1 hplus
      · exact map_natCast_eq_some_iff.2 ⟨_, hmagnitude, (one_mul _).symm⟩
    | plus => exact map_natCast_eq_some_iff.2 ⟨_, hmagnitude, (one_mul _).symm⟩
    | minus => exact map_natCast_eq_some_iff.2 ⟨_, hmagnitude, (neg_one_mul _).symm⟩

end Numeral

end CurveLock

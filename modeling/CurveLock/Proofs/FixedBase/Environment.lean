import CurveLock.Proofs.Refusal.Reports
import CurveLock.Proofs.Text.Grammar

/-!
# What the environment may say

Which environments ask for which settings.  The window has to spell an integer from one up to the
widest window, in the grammar of numerals, and an unset one spells four; a table is wanted if the
other variable says yes.  Nothing else is asked for by an environment, and all environments in which
the window says something else are refused (`FixedBase.environment_settings`).

* `FixedBase.SaysYes`: the texts that say yes.
-/

namespace CurveLock

namespace FixedBase

/-- The text is a word that means yes, with blanks around it and its letters in either case.  These
words have no other letters than those of ASCII, and ASCII has all letters of the same lower
case. -/
def SaysYes (s : String) : Prop :=
  ∃ word ∈ ["1", "true", "yes", "on"], ∃ body, Text.Padded Text.isBlank s.toList body ∧
    body.map Char.toLower = word.toList

theorem contains_keyword_iff (s : String) :
    yesWords.contains (Text.keyword s) = true ↔ SaysYes s := by
  have plain : ∀ word ∈ yesWords, ∀ c ∈ word.toList,
      Text.isBlank c = false ∧ c ≠ 'k' ∧ c ≠ '\u212a' := by simp [yesWords, Text.isBlank]
  rw [List.contains_iff_mem]
  constructor
  · exact fun h => ⟨_, h, (Text.keyword_eq_iff (plain _ h)).1 rfl⟩
  · rintro ⟨word, hword, hbody⟩
    rwa [(Text.keyword_eq_iff (plain word hword)).2 hbody]

namespace Settings

variable {env : Environment}

/-- A window that spells no integer is refused as it stands. -/
theorem ofEnvironment_of_unspelled (h : ∀ n, ¬ Numeral.Spells (env.window.getD "4") n) :
    ofEnvironment env = .error (.refused (.windowNotInteger (env.window.getD "4"))) := by
  have hread : Numeral.read? (env.window.getD "4") = none :=
    Option.eq_none_iff_forall_ne_some.2 fun n hn => h n (Numeral.read?_eq_some_iff.1 hn)
  rw [ofEnvironment]
  simp only [hread]
  rfl

variable {n : ℤ} (h : Numeral.Spells (env.window.getD "4") n)

include h

theorem ofEnvironment_of_spells :
    ofEnvironment env =
      make (.bool (yesWords.contains (Text.keyword (env.useTable.getD "")))) (.int n) .null := by
  rw [ofEnvironment]
  simp only [Numeral.read?_eq_some_iff.2 h]

theorem ofEnvironment_of_inRange (hn : 1 ≤ n ∧ n ≤ maxWindow) :
    ofEnvironment env =
      .ok ⟨.bool (yesWords.contains (Text.keyword (env.useTable.getD ""))), .int n, .null⟩ := by
  rw [ofEnvironment_of_spells h, make_eq rfl hn.1 hn.2 (.inl rfl)]

/-- A window that is out of range is refused, and can be written in the report, since it has been
read. -/
theorem ofEnvironment_of_outOfRange (hn : ¬ (1 ≤ n ∧ n ≤ maxWindow)) :
    ofEnvironment env = .error (.refused (.windowOutOfRange (.int n))) := by
  have hwritten : ∀ m ∈ [n], m.natAbs < 10 ^ digitLimit :=
    List.forall_mem_singleton.2 (Numeral.natAbs_lt_of_read? (Numeral.read?_eq_some_iff.2 h))
  rw [ofEnvironment_of_spells h, make_window_out_of_range hn, Failure.reported_of_lt hwritten]

end Settings

/-- A window spells no integer, or one that is in range, or one that is not. -/
theorem window_cases (text : String) :
    (∀ n, ¬ Numeral.Spells text n) ∨ (∃ n, Numeral.Spells text n ∧ (1 ≤ n ∧ n ≤ maxWindow)) ∨
      ∃ n, Numeral.Spells text n ∧ ¬ (1 ≤ n ∧ n ≤ maxWindow) := by
  by_cases hspells : ∃ n, Numeral.Spells text n
  · obtain ⟨n, hn⟩ := hspells
    by_cases hrange : 1 ≤ n ∧ n ≤ maxWindow
    · exact .inr (.inl ⟨n, hn, hrange⟩)
    · exact .inr (.inr ⟨n, hn, hrange⟩)
  · exact .inl (not_exists.1 hspells)

/-- **What an environment asks for.**  It asks for settings if and only if its window, which is 4
when it is unset, spells an integer from 1 to 16; these settings have this window, no width of the
table of their own, and they want a table if and only if the other variable, which is empty when it
is unset, says yes.  Every other environment is refused: its window spells no integer, or one that
is out of range. -/
theorem environment_settings (env : Environment) :
    let text := env.window.getD "4"
    (∀ st, Settings.ofEnvironment env = .ok st ↔
      ∃ n wanted, Numeral.Spells text n ∧ (1 ≤ n ∧ n ≤ 16) ∧
        (wanted = true ↔ SaysYes (env.useTable.getD "")) ∧
        st = { useTable := .bool wanted, window := .int n, tableBits := .null }) ∧
    ∀ f, Settings.ofEnvironment env = .error f ↔
      (∀ n, ¬ Numeral.Spells text n) ∧ f = .refused (.windowNotInteger text) ∨
      ∃ n, Numeral.Spells text n ∧ ¬ (1 ≤ n ∧ n ≤ 16) ∧
        f = .refused (.windowOutOfRange (.int n)) := by
  intro text
  constructor
  · intro st
    constructor
    · intro hst
      rcases window_cases text with hnone | ⟨n, hn, hrange⟩ | ⟨n, hn, hrange⟩
      · rw [Settings.ofEnvironment_of_unspelled hnone] at hst
        cases hst
      · rw [Settings.ofEnvironment_of_inRange hn hrange] at hst
        exact ⟨n, _, hn, hrange, contains_keyword_iff _, (Except.ok.inj hst).symm⟩
      · rw [Settings.ofEnvironment_of_outOfRange hn hrange] at hst
        cases hst
    · rintro ⟨n, wanted, hn, hrange, hwanted, rfl⟩
      rw [Settings.ofEnvironment_of_inRange hn hrange,
        Bool.eq_iff_iff.2 ((contains_keyword_iff _).trans hwanted.symm)]
  · intro f
    constructor
    · intro hf
      rcases window_cases text with hnone | ⟨n, hn, hrange⟩ | ⟨n, hn, hrange⟩
      · rw [Settings.ofEnvironment_of_unspelled hnone] at hf
        exact .inl ⟨hnone, (Except.error.inj hf).symm⟩
      · rw [Settings.ofEnvironment_of_inRange hn hrange] at hf
        cases hf
      · rw [Settings.ofEnvironment_of_outOfRange hn hrange] at hf
        exact .inr ⟨n, hn, hrange, (Except.error.inj hf).symm⟩
    · rintro (⟨hnone, rfl⟩ | ⟨n, hn, hrange, rfl⟩)
      · exact Settings.ofEnvironment_of_unspelled hnone
      · exact Settings.ofEnvironment_of_outOfRange hn hrange

example : Settings.ofEnvironment { useTable := some " Yes\n", window := some "\t+1_2 " } =
    .ok { useTable := .bool true, window := .int 12 } := by cbv

end FixedBase

end CurveLock

import CurveLock.Text.Blank
import Mathlib.Data.List.TakeWhile

/-!
# What stands between the blanks

A text is what is left of it without the blanks at its two ends, with blanks around it
(`Text.padded_strip`); and whatever neither starts nor ends with a blank is what is left of every
text in which it stands between blanks (`Text.strip_eq_of_padded`).

* `Text.Padded`: a text in which another stands between characters of a class;
* `Text.keyword_eq_iff`: which texts are looked up as a given word.
-/

namespace CurveLock

namespace Text

/-- The text `cs` is `body` with characters of a class around it. -/
def Padded (blank : Char → Bool) (cs body : List Char) : Prop :=
  ∃ lead trail, cs = lead ++ body ++ trail ∧ (∀ c ∈ lead, blank c = true) ∧
    ∀ c ∈ trail, blank c = true

variable {blank : Char → Bool}

theorem padded_strip (blank : Char → Bool) (cs : List Char) : Padded blank cs (strip blank cs) := by
  have hback := List.takeWhile_append_dropWhile (p := blank) (l := (cs.dropWhile blank).reverse)
  refine ⟨cs.takeWhile blank, ((cs.dropWhile blank).reverse.takeWhile blank).reverse, ?_,
    fun c hc => List.mem_takeWhile_imp hc,
    fun c hc => List.mem_takeWhile_imp (List.mem_reverse.1 hc)⟩
  rw [strip, List.append_assoc, ← List.reverse_append, hback, List.reverse_reverse,
    List.takeWhile_append_dropWhile]

/-- Blanks before a text that does not start with one are dropped, and nothing else. -/
theorem dropWhile_append_exact {lead rest : List Char} (hlead : ∀ c ∈ lead, blank c = true)
    (hrest : ∀ c ∈ rest.head?, blank c = false) : (lead ++ rest).dropWhile blank = rest := by
  rw [List.dropWhile_append_of_pos hlead]
  cases rest with
  | nil => rfl
  | cons c cs => exact List.dropWhile_cons_of_neg (Bool.eq_false_iff.1 (hrest c rfl))

/-- **Only the blanks around a text are removed.** -/
theorem strip_eq_of_padded {cs body : List Char} (h : Padded blank cs body)
    (hfirst : ∀ c ∈ body.head?, blank c = false) (hlast : ∀ c ∈ body.getLast?, blank c = false) :
    strip blank cs = body := by
  obtain ⟨lead, trail, rfl, hlead, htrail⟩ := h
  have htrail' : ∀ c ∈ trail.reverse, blank c = true := fun c hc => htrail c (List.mem_reverse.1 hc)
  have hlast' : ∀ c ∈ body.reverse.head?, blank c = false := by rwa [List.head?_reverse]
  rw [strip, List.append_assoc]
  cases body with
  | nil =>
    -- there is nothing but blanks
    rw [List.nil_append, List.dropWhile_eq_nil_iff.2 (List.forall_mem_append.2 ⟨hlead, htrail⟩)]
    rfl
  | cons c cs =>
    have hfront : ∀ d ∈ (c :: cs ++ trail).head?, blank d = false := hfirst
    rw [dropWhile_append_exact hlead hfront, List.reverse_append,
      dropWhile_append_exact htrail' hlast', List.reverse_reverse]

/-! ### Words -/

theorem toNat_toLower (c : Char) :
    c.toLower.toNat = if 65 ≤ c.toNat ∧ c.toNat ≤ 90 then c.toNat + 32 else c.toNat := by
  have upper : (c.val ≥ 'A'.val ∧ c.val ≤ 'Z'.val) ↔ 65 ≤ c.toNat ∧ c.toNat ≤ 90 := Iff.rfl
  by_cases h : 65 ≤ c.toNat ∧ c.toNat ≤ 90
  · have hlower : c.toLower = ⟨c.val + ('a'.val - 'A'.val), _⟩ := dif_pos (upper.2 h)
    have shift : ('a'.val - 'A'.val).toNat = 32 := rfl
    rw [if_pos h, hlower, Char.toNat, UInt32.toNat_add, shift]
    exact Nat.mod_eq_of_lt (by change c.toNat + 32 < _; omega)
  · have hlower : c.toLower = c := dif_neg (mt upper.1 h)
    rw [if_neg h, hlower]

/-- Blanks have no case. -/
theorem isBlank_toLower (c : Char) : isBlank c.toLower = isBlank c := by
  simp only [isBlank, toNat_toLower]
  split_ifs with h
  · rw [Bool.eq_iff_iff]
    simp only [Bool.or_eq_true, Bool.and_eq_true, decide_eq_true_eq, beq_iff_eq]
    omega
  · rfl

/-- For a word without the letter k, ASCII knows all the letters that have the same lower case. -/
theorem map_asciiLower_eq_iff {cs word : List Char} (hk : ∀ c ∈ word, c ≠ 'k' ∧ c ≠ '\u212a') :
    cs.map asciiLower = word ↔ cs.map Char.toLower = word := by
  have same : ∀ c, asciiLower c ∈ word ∨ c.toLower ∈ word → asciiLower c = c.toLower := by
    intro c h
    by_cases hc : c = '\u212a'
    · -- the Kelvin sign has the letter k as its lower case, and ASCII leaves it as it is
      subst hc
      exact h.elim (fun hmem => absurd rfl (hk _ hmem).1) fun hmem => absurd rfl (hk _ hmem).2
    · rw [asciiLower, if_neg hc]
  constructor
  · rintro rfl
    exact List.map_congr_left fun c hc => (same c (.inl (List.mem_map_of_mem hc))).symm
  · rintro rfl
    exact List.map_congr_left fun c hc => same c (.inr (List.mem_map_of_mem hc))

/-- **A text is looked up as a word if it is the word between blanks**, whatever the case of its
letters. -/
theorem keyword_eq_iff {s word : String}
    (hword : ∀ c ∈ word.toList, isBlank c = false ∧ c ≠ 'k' ∧ c ≠ '\u212a') :
    keyword s = word ↔
      ∃ body, Padded isBlank s.toList body ∧ body.map Char.toLower = word.toList := by
  have lower (cs : List Char) :
      cs.map asciiLower = word.toList ↔ cs.map Char.toLower = word.toList :=
    map_asciiLower_eq_iff fun c hc => (hword c hc).2
  rw [keyword, ← String.toList_inj, String.toList_ofList, lower]
  constructor
  · exact fun h => ⟨_, padded_strip isBlank s.toList, h⟩
  · rintro ⟨body, hpadded, hbody⟩
    have hblank : ∀ c ∈ body, isBlank c = false := by
      intro c hc
      rw [← isBlank_toLower]
      exact (hword _ (hbody ▸ List.mem_map_of_mem hc)).1
    rw [stripBlanks, strip_eq_of_padded hpadded (fun c hc => hblank c (List.mem_of_mem_head? hc))
      fun c hc => hblank c (List.mem_of_mem_getLast? hc), hbody]

end Text

end CurveLock

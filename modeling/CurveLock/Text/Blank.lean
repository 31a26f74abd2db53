/-!
# Blank characters

White space in two readings, and its removal from both ends of a text.

* `isBlank`: every character that Unicode counts as white space, and the four information
  separators U+001C to U+001F;
* `isNumeralBlank`: the same without the information separators; this is what may surround a
  written number;
* `stripBlanks`: a text without the blanks at its two ends.
-/

namespace CurveLock

namespace Text

/-- White space, the information separators included. -/
def isBlank (c : Char) : Bool :=
  let n := c.toNat
  (0x09 ≤ n && n ≤ 0x0d) || (0x1c ≤ n && n ≤ 0x20) || n == 0x85 || n == 0xa0 || n == 0x1680 ||
    (0x2000 ≤ n && n ≤ 0x200a) || n == 0x2028 || n == 0x2029 || n == 0x202f || n == 0x205f ||
    n == 0x3000

/-- White space that may stand around a written number. -/
def isNumeralBlank (c : Char) : Bool := isBlank c && !(0x1c ≤ c.toNat && c.toNat ≤ 0x1f)

/-- A text without the characters of a class at its two ends. -/
def strip (blank : Char → Bool) (cs : List Char) : List Char :=
  ((cs.dropWhile blank).reverse.dropWhile blank).reverse

/-- A text without the blanks at its two ends. -/
def stripBlanks (cs : List Char) : List Char := strip isBlank cs

/-- The lower case of a character, as far as it is an ASCII character: the letters `A` to `Z`, and
the Kelvin sign, which is the only other character with an ASCII lower case. Every other character
stays as it is; its lower case holds a character outside ASCII as well. -/
def asciiLower (c : Char) : Char :=
  if c = '\u212a' then 'k' else c.toLower

/-- A word as it is looked up: without the blanks around it, in lower case. -/
def keyword (s : String) : String := String.ofList ((stripBlanks s.toList).map asciiLower)

end Text

end CurveLock

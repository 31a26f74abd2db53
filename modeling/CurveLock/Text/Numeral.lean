import CurveLock.Text.Blank

/-!
# Written integers

The grammar of a written integer: blanks around it are ignored; an optional sign, then decimal
digits of any script, with single underscores between them (`Numeral.read?`). A numeral of more
than `digitLimit` digits is refused, leading zeros included and underscores not.

* `decimalDigit?`: the value of a character as a decimal digit;
* `Numeral.digits?`: the digits of an unsigned numeral.
-/

namespace CurveLock

/-- The most decimal digits that an integer may have where it is read or written in decimal. -/
def digitLimit : Nat := 4300

namespace Text

/-- The digit zero of each script that has decimal digits; the other nine follow it. -/
def zeroDigits : List Nat :=
  [0x30, 0x660, 0x6f0, 0x7c0, 0x966, 0x9e6, 0xa66, 0xae6, 0xb66, 0xbe6,
   0xc66, 0xce6, 0xd66, 0xde6, 0xe50, 0xed0, 0xf20, 0x1040, 0x1090, 0x17e0,
   0x1810, 0x1946, 0x19d0, 0x1a80, 0x1a90, 0x1b50, 0x1bb0, 0x1c40, 0x1c50, 0xa620,
   0xa8d0, 0xa900, 0xa9d0, 0xa9f0, 0xaa50, 0xabf0, 0xff10, 0x104a0, 0x10d30, 0x11066,
   0x110f0, 0x11136, 0x111d0, 0x112f0, 0x11450, 0x114d0, 0x11650, 0x116c0, 0x11730, 0x118e0,
   0x11950, 0x11c50, 0x11d50, 0x11da0, 0x16a60, 0x16ac0, 0x16b50, 0x1d7ce, 0x1d7d8, 0x1d7e2,
   0x1d7ec, 0x1d7f6, 0x1e140, 0x1e2f0, 0x1e950, 0x1fbf0]

/-- The value of a decimal digit of any script. -/
def decimalDigit? (c : Char) : Option Nat :=
  (zeroDigits.find? fun z => z ≤ c.toNat && c.toNat < z + 10).map (c.toNat - ·)

end Text

namespace Numeral

/-- The digits of an unsigned numeral, most significant first. There is at least one, and an
underscore stands only between two digits. -/
def digits? : List Char → Option (List Nat)
  | [] => none
  | [c] => (Text.decimalDigit? c).map ([·])
  | c :: '_' :: rest => do return (← Text.decimalDigit? c) :: (← digits? rest)
  | c :: rest => do return (← Text.decimalDigit? c) :: (← digits? rest)

/-- The number with the given decimal digits, most significant first. -/
def value (digits : List Nat) : Nat := digits.foldl (fun n d => 10 * n + d) 0

/-- An unsigned numeral within the digit limit. -/
def magnitude? (cs : List Char) : Option Nat :=
  match digits? cs with
  | some ds => if ds.length ≤ digitLimit then some (value ds) else none
  | none => none

/-- The integer that a text spells, if it is a numeral. -/
def read? (s : String) : Option Int :=
  match Text.strip Text.isNumeralBlank s.toList with
  | '-' :: rest => (magnitude? rest).map fun n => -(n : Int)
  | '+' :: rest => (magnitude? rest).map fun n => (n : Int)
  | rest => (magnitude? rest).map fun n => (n : Int)

end Numeral

end CurveLock

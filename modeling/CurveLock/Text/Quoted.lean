import CurveLock.Bytes
import CurveLock.Text.Printable

/-!
# Quoted texts and byte strings

A quoted text stands between single quotes, or between double quotes when it holds a single quote
and no double one. The quote in use and the backslash are escaped by a backslash, as are line feed,
carriage return and tab; what does not print is written as its code point in hexadecimal.

* `Quoted.text`: a text in quotes;
* `Quoted.bytes`, `Quoted.byteArray`: a byte string in quotes, where only ASCII characters stand for
  themselves;
* `Quoted.ascii`: any text, with the characters beyond ASCII escaped.
-/

namespace CurveLock

namespace Quoted

/-- The digits of `n` in base sixteen, at least `width` of them. -/
def hex (width n : Nat) : List Char :=
  let ds := Nat.toDigits 16 n
  List.replicate (width - ds.length) '0' ++ ds

/-- The quote to put around characters: the single one, unless they hold it and no double one. -/
def quoteFor (cs : List Char) : Char :=
  if cs.contains '\x27' && !cs.contains '\x22' then '\x22' else '\x27'

/-- The short escapes: of the character `escaped`, the backslash, line feed, carriage return and
tab; none for other characters. -/
def shortEscape? (escaped c : Char) : Option (List Char) :=
  if c = escaped || c = '\\' then some ['\\', c]
  else if c = '\n' then some ['\\', 'n']
  else if c = '\r' then some ['\\', 'r']
  else if c = '\t' then some ['\\', 't']
  else none

/-- A code point that does not print, in two, four or eight hexadecimal digits. -/
def codeEscape (n : Nat) : List Char :=
  if n < 0x100 then '\\' :: 'x' :: hex 2 n
  else if n < 0x10000 then '\\' :: 'u' :: hex 4 n
  else '\\' :: 'U' :: hex 8 n

/-- One character of a text inside quotes. -/
def textChar (quote c : Char) : List Char :=
  (shortEscape? quote c).getD (if Text.isPrintable c then [c] else codeEscape c.toNat)

/-- One byte of a byte string inside quotes. -/
def byteChar (escaped : Char) (b : UInt8) : List Char :=
  let c := Char.ofNat b.toNat
  (shortEscape? escaped c).getD
    (if 0x20 ≤ b.toNat && b.toNat < 0x7f then [c] else '\\' :: 'x' :: hex 2 b.toNat)

/-- A text in quotes. -/
def text (s : String) : String :=
  let quote := quoteFor s.toList
  String.ofList (quote :: (s.toList.flatMap (textChar quote) ++ [quote]))

/-- The quote to put around a byte string. -/
def quoteForBytes (b : Bytes) : Char := quoteFor (b.map fun x => Char.ofNat x.toNat)

/-- A byte string in quotes. -/
def bytes (b : Bytes) : String :=
  let quote := quoteForBytes b
  String.ofList (quote :: (b.flatMap (byteChar quote) ++ [quote]))

/-- A byte string that its holder can change, in quotes; here a single quote is escaped between
double quotes too. -/
def byteArray (b : Bytes) : String :=
  let quote := quoteForBytes b
  String.ofList (quote :: (b.flatMap (byteChar '\x27') ++ [quote]))

/-- A text with only ASCII characters, where the others are escaped. -/
def ascii (s : String) : String :=
  String.ofList (s.toList.flatMap fun c => if c.toNat < 0x80 then [c] else codeEscape c.toNat)

end Quoted

end CurveLock

import CurveLock.Curve.Placed
import CurveLock.Number.Scaled
import CurveLock.Text.Quoted

/-!
# Values of any type

What callers hand in as a curve identifier, a key, a ciphertext or an exponent may be a value of
any type (`Datum`); each operation says which it accepts.

* `Datum.typeName`, `Datum.literal`, `Datum.display`: how messages call a value's type, and how
  they write the value;
* `Datum.literalIntegers`: the integers that the literal spells out;
* `Datum.isTrue`: whether a value counts as true;
* `Datum.elements?`, `Datum.pair?`: the elements of a value, and the two elements of one that holds
  exactly two.
-/

namespace CurveLock

/-- A value of any type. -/
inductive Datum where
  | null
  | bool (b : Bool)
  | int (n : Int)
  /-- A 64-bit floating-point number, by its bits. -/
  | float (bits : UInt64)
  | text (s : String)
  | bytes (b : Bytes)
  /-- A byte string that its holder can change. -/
  | byteArray (b : Bytes)
  | list (items : List Datum)
  | tuple (items : List Datum)
  | dict (entries : List (Datum × Datum))
  | point (P : PlacedPoint)
  /-- The base point of a curve, which comes with a table of its multiples. -/
  | base (c : Curve)
  /-- An object that the caller has made before: its type, how it is shown, and a number of its
  own. -/
  | handle (type shown : String) (id : Nat)
  /-- The same of an object that consists of named values. -/
  | record (type : String) (fields : List (String × Datum)) (id : Nat)

namespace Datum

/-- How messages call the type of a value. -/
def typeName : Datum → String
  | null => "NoneType"
  | bool _ => "bool"
  | int _ => "int"
  | float _ => "float"
  | text _ => "str"
  | bytes _ => "bytes"
  | byteArray _ => "bytearray"
  | list _ => "list"
  | tuple _ => "tuple"
  | dict _ => "dict"
  | point .infinity => "Point"
  | point (.on ..) | base _ => "PointJacobi"
  | handle type _ _ | record type _ _ => type

/-- The point that a value is. -/
def placed? : Datum → Option PlacedPoint
  | point P => some P
  | base c => some (.ofPoint c c.generator)
  | _ => none

/-! ### Literals -/

/-- Texts with a comma and a blank between them. -/
def commaSeparated (parts : List String) : String := ", ".intercalate parts

/-- A point as messages write it. -/
def pointLiteral : PlacedPoint → String
  | .infinity => "infinity"
  | .on _ x y => "(" ++ toString x ++ "," ++ toString y ++ ")"

mutual

/-- A value as messages write it. -/
def literal : Datum → String
  | null => "None"
  | bool b => if b then "True" else "False"
  | int n => toString n
  | float bits => (BinaryFloat.ofBits bits).text
  | text s => Quoted.text s
  | bytes b => "b" ++ Quoted.bytes b
  | byteArray b => "bytearray(b" ++ Quoted.byteArray b ++ ")"
  | list items => "[" ++ commaSeparated (literals items) ++ "]"
  | tuple items =>
    match literals items with
    | [one] => "(" ++ one ++ ",)"
    | parts => "(" ++ commaSeparated parts ++ ")"
  | dict entries => "\x7b" ++ commaSeparated (entryLiterals entries) ++ "\x7d"
  | point P => pointLiteral P
  | base c => pointLiteral (.ofPoint c c.generator)
  | handle _ shown _ => shown
  | record type fields _ => type ++ "(" ++ commaSeparated (fieldLiterals fields) ++ ")"

/-- The literals of the elements. -/
def literals : List Datum → List String
  | [] => []
  | d :: rest => literal d :: literals rest

/-- The literals of the entries of a dictionary. -/
def entryLiterals : List (Datum × Datum) → List String
  | [] => []
  | (k, v) :: rest => (literal k ++ ": " ++ literal v) :: entryLiterals rest

/-- The literals of named values. -/
def fieldLiterals : List (String × Datum) → List String
  | [] => []
  | (name, v) :: rest => (name ++ "=" ++ literal v) :: fieldLiterals rest

end

mutual

/-- The integers that the literal of a value spells out. -/
def literalIntegers : Datum → List Int
  | int n => [n]
  | list items | tuple items => itemIntegers items
  | dict entries => entryIntegers entries
  | record _ fields _ => fieldIntegers fields
  | _ => []

/-- The integers in the literals of the elements. -/
def itemIntegers : List Datum → List Int
  | [] => []
  | d :: rest => literalIntegers d ++ itemIntegers rest

/-- The integers in the literals of the entries of a dictionary. -/
def entryIntegers : List (Datum × Datum) → List Int
  | [] => []
  | (k, v) :: rest => literalIntegers k ++ literalIntegers v ++ entryIntegers rest

/-- The integers in the literals of named values. -/
def fieldIntegers : List (String × Datum) → List Int
  | [] => []
  | (_, v) :: rest => literalIntegers v ++ fieldIntegers rest

end

/-- A value as messages write it where it stands for itself: a text without quotes. -/
def display : Datum → String
  | text s => s
  | d => d.literal

/-! ### Parts -/

/-- The number that a value is, on the common scale; truth values are one and zero. -/
def number? : Datum → Option Scaled
  | bool b => some (.ofInt (if b then 1 else 0))
  | int n => some (.ofInt n)
  | float bits => some (.ofFloat (.ofBits bits))
  | _ => none

/-- Whether a value counts as true: null, zero and whatever is empty do not. -/
def isTrue : Datum → Bool
  | null => false
  | text s => !s.isEmpty
  | bytes b | byteArray b => !b.isEmpty
  | list items | tuple items => !items.isEmpty
  | dict entries => !entries.isEmpty
  | d => d.number? != some (.units 0)

/-- Of the integers only zero does not count as true. -/
theorem isTrue_int (k : Int) : (int k).isTrue = decide (k ≠ 0) := by
  have one_ne : (Scaled.one : Int) ≠ 0 := by decide
  by_cases h : k = 0
  · subst h
    decide
  · have scaled_ne : k * (Scaled.one : Int) ≠ 0 := Int.mul_ne_zero h one_ne
    simp [isTrue, number?, Scaled.ofInt, bne, h, scaled_ne]

/-- The byte string that a value is, whether or not its holder can change it. -/
def bytes? : Datum → Option Bytes
  | bytes b | byteArray b => some b
  | _ => none

/-- The elements that a value yields one after the other; none for a value that holds none. -/
def elements? : Datum → Option (List Datum)
  | text s => some (s.toList.map fun c => text (String.singleton c))
  | bytes b | byteArray b => some (b.map fun x => int x.toNat)
  | list items | tuple items => some items
  | dict entries => some (entries.map Prod.fst)
  | _ => none

/-- The two elements of a value that holds exactly two. -/
def pair? (d : Datum) : Option (Datum × Datum) :=
  match d.elements? with
  | some [a, b] => some (a, b)
  | _ => none

end Datum

end CurveLock

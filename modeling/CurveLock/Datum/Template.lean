import CurveLock.Datum.Reading
import CurveLock.Number.Decimal

/-!
# Filling in templates

A template is filled in with values: those of a tuple, one after the other, or else a single one, in
which the keys of directives are looked up where it has elements or entries.

* `Template.Conversion`: the ways in which a directive writes a value, and `Conversion.field` what
  they write;
* `Field.layout`: how that is laid out in the width of the directive;
* `Directive.fill`: one directive with the next of the values;
* `Datum.filled`: a text or a byte string with all its directives filled in. Values that are left
  over are a failure, unless keys could have been looked up in them.
-/

namespace CurveLock

namespace Template

/-! ### Values -/

/-- The values that fill in a template. -/
structure Values where
  /-- The value in which keys are looked up, where there is one. -/
  keyed : Option Datum
  /-- The values still to be used, in order. -/
  pending : List Datum

/-- A program that uses up values. -/
abbrev Filling := StateT Values (Except Failure)

/-- Whether keys are looked up in a value that fills in a template. -/
def isKeyed : Medium → Datum → Bool
  | _, .list _ | _, .dict _ | .text, .bytes _ | .text, .byteArray _ => true
  | _, _ => false

/-- The values for which a value stands. -/
def Values.ofDatum (m : Medium) (d : Datum) : Values where
  keyed := if isKeyed m d then some d else none
  pending := match d with
    | .tuple items => items
    | d => [d]

/-- The next value. -/
def next : Filling Datum := do
  match (← get).pending with
  | [] => throw .wrongType
  | d :: rest =>
    modify fun v => { v with pending := rest }
    return d

/-- The byte of the same number as a character. -/
def byteOf (c : Char) : UInt8 := UInt8.ofNat c.toNat

/-- The characters of the same numbers as bytes. -/
def charsOf (b : Bytes) : List Char := b.map fun x => Char.ofNat x.toNat

/-- The value that characters name as a key. -/
def keyOf (m : Medium) (cs : List Char) : Datum :=
  match m with
  | .text => .text (String.ofList cs)
  | .bytes => .bytes (cs.map byteOf)

/-- Has the value under a key be the next one, and the only one. -/
def lookUp (m : Medium) (key : Except Fault (List Char)) : Filling Unit := do
  match (← get).keyed, key with
  | none, _ => throw .wrongType
  | some _, .error f => throw (.template f)
  | some d, .ok key =>
    let value ← d.element (keyOf m key)
    modify fun v => { v with pending := [value] }

/-! ### Numbers in directives -/

/-- The width of a field, and whether it turns what it holds to the left. A width taken from the
values does so when it is negative. -/
def widthOf : Extent → Filling (Nat × Bool)
  | .absent => return (0, false)
  | .given n => return (n, false)
  | .taken => do
    let n ← (← next).number
    if n < -extentLimit ∨ extentLimit ≤ n then throw (.tooLarge .takenWidth)
    return (if n = -extentLimit then 0 else n.natAbs, n < 0)

/-- The precision of a directive. One taken from the values is zero when it is negative. -/
def precisionOf : Extent → Filling (Option Nat)
  | .absent => return none
  | .given n => return some n
  | .taken => do
    let n ← (← next).number
    if n < -precisionLimit - 1 ∨ precisionLimit < n then throw (.tooLarge .takenPrecision)
    return some n.toNat

/-! ### Fields -/

/-- What a field holds. -/
structure Field where
  /-- The sign and the mark of the base; zeros that fill up the field come after them. -/
  lead : List Char := []
  body : List Char
  /-- Whether the field may be filled up with zeros. -/
  numeric : Bool := false

/-- What a field holds, filled up to its width. -/
def Field.layout (f : Field) (flags : Flags) (left : Bool) (width : Nat) : List Char :=
  let gap := width - (f.lead.length + f.body.length)
  if left then f.lead ++ f.body ++ List.replicate gap ' '
  else if flags.zero && f.numeric then f.lead ++ List.replicate gap '0' ++ f.body
  else List.replicate gap ' ' ++ f.lead ++ f.body

/-- The sign of a number. -/
def signOf (flags : Flags) (negative : Bool) : List Char :=
  if negative then ['-'] else if flags.plus then ['+'] else if flags.blank then [' '] else []

/-! ### Conversions -/

/-- How decimals are written. -/
inductive Form where
  | fixed
  | scientific
  | general
  deriving DecidableEq, Repr

/-- The ways in which a directive writes a value. -/
inductive Conversion where
  /-- As it stands for itself. -/
  | shown
  /-- As messages write it. -/
  | literal
  /-- As messages write it, with only ASCII characters. -/
  | ascii
  /-- As a character. -/
  | character
  /-- As a whole number. -/
  | integer
  /-- As an integer in another base, with the mark of the base. -/
  | based (base : Nat) (mark : Char) (capital : Bool)
  /-- As a decimal. -/
  | decimal (form : Form) (capital : Bool)
  deriving DecidableEq, Repr

/-- The conversion for which a character stands. -/
def Conversion.ofChar? (m : Medium) : Char → Option Conversion
  | 's' => some .shown
  | 'b' => if m = .bytes then some .shown else none
  | 'r' => some (if m = .bytes then .ascii else .literal)
  | 'a' => some .ascii
  | 'c' => some .character
  | 'd' | 'i' | 'u' => some .integer
  | 'o' => some (.based 8 'o' false)
  | 'x' => some (.based 16 'x' false)
  | 'X' => some (.based 16 'X' true)
  | 'f' => some (.decimal .fixed false)
  | 'F' => some (.decimal .fixed true)
  | 'e' => some (.decimal .scientific false)
  | 'E' => some (.decimal .scientific true)
  | 'g' => some (.decimal .general false)
  | 'G' => some (.decimal .general true)
  | _ => none

/-- Letters as capitals where they are to be. -/
def capitals (capital : Bool) (cs : List Char) : List Char :=
  if capital then cs.map Char.toUpper else cs

/-- What spells out a value; one that holds an integer of too many digits has no such text. -/
def spelled (d : Datum) (s : String) : Except Failure (List Char) :=
  if Failure.writable d.literalIntegers then .ok s.toList else .error .tooManyDigits

/-- A value as it stands for itself. In a byte string only a byte string does. -/
def shownValue (m : Medium) (d : Datum) : Except Failure (List Char) :=
  match m with
  | .text => spelled d d.display
  | .bytes => do return charsOf (← d.byteString)

/-- A value as one character: a character, or the number of one. -/
def characterValue (m : Medium) (d : Datum) : Except Failure Char :=
  match m, d with
  | .text, .text s =>
    match s.toList with
    | [c] => .ok c
    | _ => .error .wrongType
  | .bytes, .bytes b | .bytes, .byteArray b =>
    match charsOf b with
    | [c] => .ok c
    | _ => .error .wrongType
  | _, _ => do
    let n ← d.number
    match m with
    | .text =>
      if 0 ≤ n ∧ n < 0x110000 then return Char.ofNat n.toNat else throw (.tooLarge .codePoints)
    | .bytes => if 0 ≤ n ∧ n < 256 then return Char.ofNat n.toNat else throw (.tooLarge .byteValues)

/-- A value as a whole number: an integer, or a floating-point number without its fraction. -/
def wholeValue (d : Datum) : Except Failure Int :=
  match d with
  | .float bits =>
    match Scaled.ofFloat (.ofBits bits) with
    | .units v => .ok (v.tdiv Scaled.one)
    | .infinite _ => .error (.tooLarge .integers)
    | .nan => .error .notANumber
  | d => d.number

/-- The digits of an integer, as many as the precision asks for at least. -/
def digitsOf (base n : Nat) (precision : Option Nat) : Except Failure (List Char) :=
  let least := precision.getD 0
  if precisionLimit - 3 < least then .error (.tooLarge .digitCount)
  else if base = 10 ∧ !Failure.writable [n] then .error .tooManyDigits
  else
    let ds := Nat.toDigits base n
    .ok (Decimal.zeros (least - ds.length) ++ ds)

/-- The sign and the magnitude of a real number, in units; none for an infinity and for what is no
number. An integer stands for the floating-point number nearest to it. -/
def realValue (m : Medium) (d : Datum) : Except Failure (Bool × Scaled) :=
  match d with
  | .float bits =>
    let x := BinaryFloat.ofBits bits
    match x with
    | .nan => .ok (false, .nan)
    | .infinite negative | .finite negative .. => .ok (negative, .ofFloat x)
  | d => do
    let n ← d.number
    match Scaled.nearest? (n * Scaled.one), m with
    | some v, _ => return (n < 0, .units v)
    | none, .text => throw (.tooLarge .floatRange)
    | none, .bytes => throw .wrongType

/-- The magnitude of a real number as a decimal. With the largest precision the digits of the
scientific form, one more than that, can no longer be counted, and it has only the first. -/
def decimalOf (form : Form) (x : Scaled) (digits : Nat) (full : Bool) : List Char :=
  match x with
  | .nan => ['n', 'a', 'n']
  | .infinite _ => ['i', 'n', 'f']
  | .units v =>
    match form with
    | .fixed => Decimal.fixed v.natAbs digits full
    | .scientific =>
      Decimal.scientific v.natAbs (if digits = precisionLimit then 0 else digits) full
    | .general => Decimal.general v.natAbs digits full

/-- What a conversion writes. -/
def Conversion.field (m : Medium) (flags : Flags) (precision : Option Nat) (d : Datum) :
    Conversion → Except Failure Field
  | shown => do return ⟨[], cut (← shownValue m d), false⟩
  | literal => do return ⟨[], cut (← spelled d d.literal), false⟩
  | ascii => do return ⟨[], cut (← spelled d (Quoted.ascii d.literal)), false⟩
  | character => do return ⟨[], [← characterValue m d], false⟩
  | integer => do
    let n ← wholeValue d
    return ⟨signOf flags (n < 0), ← digitsOf 10 n.natAbs precision, true⟩
  | based base mark capital => do
    let n ← d.number
    let lead := signOf flags (n < 0) ++ (if flags.full then ['0', mark] else [])
    return ⟨lead, capitals capital (← digitsOf base n.natAbs precision), true⟩
  | decimal form capital => do
    let (negative, x) ← realValue m d
    return ⟨signOf flags negative,
      capitals capital (decimalOf form x (precision.getD 6) flags.full), true⟩
where
  /-- No more characters than the precision says. -/
  cut (cs : List Char) : List Char :=
    match precision with
    | some p => cs.take p
    | none => cs

/-! ### Directives and templates -/

/-- Why a character is no conversion, in a template of `size` characters. A byte from 128 on counts
as negative unless it stands after a digit, and then no message can name it. -/
def noConversion (m : Medium) (size : Nat) (d : Directive) (c : Char) : Failure :=
  if m = .bytes ∧ 0x80 ≤ c.toNat ∧ !d.afterDigit then .tooLarge .namedBytes
  else .template (.noConversion m c (size - d.rest.length - 1))

/-- A directive of a template of `size` characters, filled in. -/
def Directive.fill (m : Medium) (size : Nat) (d : Directive) : Filling (List Char) := do
  if let some key := d.key then lookUp m key
  let (width, left) ← widthOf d.width
  let precision ← precisionOf d.precision
  match d.conversion with
  | .error f => throw (.template f)
  | .ok c =>
    let value ← next
    match Conversion.ofChar? m c with
    | none => throw (noConversion m size d c)
    | some conversion =>
      let field ← conversion.field m d.flags precision value
      if Datum.memoryLimit ≤ width then throw .outOfMemory
      return field.layout d.flags (d.flags.left || left) width

/-- One more part of a template, where `written` is what the parts before have become, last one
first. -/
def fillPiece (m : Medium) (size : Nat) (written : List (List Char)) :
    Piece → Filling (List (List Char))
  | .plain cs => return cs :: written
  | .directive d => return (← d.fill m size) :: written

/-- A template, filled in. -/
def fill (m : Medium) (cs : List Char) (values : Datum) : Except Failure (List Char) := do
  let size := cs.length
  let (written, left) ← ((pieces m cs).foldlM (fillPiece m size) []).run (.ofDatum m values)
  if !left.pending.isEmpty && left.keyed.isNone then throw .wrongType
  return written.reverse.flatten

end Template

namespace Datum

/-- A text or a byte string with its directives filled in. -/
def filled (template values : Datum) : Except Failure Datum :=
  match template with
  | text s => return text (String.ofList (← Template.fill .text s.toList values))
  | bytes b =>
    return bytes ((← Template.fill .bytes (Template.charsOf b) values).map Template.byteOf)
  | byteArray b =>
    return byteArray ((← Template.fill .bytes (Template.charsOf b) values).map Template.byteOf)
  | _ => .error .wrongType

end Datum

end CurveLock

import CurveLock.Datum.Order

/-!
# Reading values

What a value of any type stands for where an integer or a byte string is needed.

* `Datum.number`: an integer; truth values count as one and zero;
* `Datum.position`, `Datum.element`: a position in a sequence, and what stands there;
* `Datum.byteString`: a byte string that is handed in as one;
* `Datum.collectedBytes`: a byte string, or one whose bytes are the elements of a collection;
* `Datum.message`: the byte string that stands for a value as a message to be hashed to a curve;
* `Datum.plaintext`: the byte string that stands for a value as a text to be encrypted.
-/

namespace CurveLock

namespace Datum

/-- The integer that a value is; truth values are one and zero. -/
def integer? : Datum → Option Int
  | int n => some n
  | bool b => some (if b then 1 else 0)
  | _ => none

/-- A value as an integer. -/
def number (d : Datum) : Except Failure Int :=
  match d.integer? with
  | some n => .ok n
  | none => .error .wrongType

/-- A value that has to be a byte string. -/
def byteString (d : Datum) : Except Failure Bytes :=
  match d.bytes? with
  | some b => .ok b
  | none => .error .wrongType

/-- A value that has to be a byte string, to be added at the end of another. -/
def suffix (d : Datum) : Except Failure Bytes :=
  match d.placed? with
  | some (.on ..) => .error .missingPart
  | _ => d.byteString

/-- A value as one byte. -/
def byte (d : Datum) : Except Failure UInt8 := do
  let n ← d.number
  if 0 ≤ n ∧ n < 256 then return UInt8.ofNat n.toNat else throw .notAByte

/-- A value as a position in a sequence; negative ones count from the end. -/
def position (d : Datum) (size : Nat) : Except Failure Nat := do
  let n ← d.number
  let i := if n < 0 then n + size else n
  if 0 ≤ i ∧ i < size then return i.toNat else throw .indexOutOfRange

/-- The element of a value at a position, or its entry under a key. -/
def element (d i : Datum) : Except Failure Datum :=
  match d with
  | dict entries =>
    match entries.find? fun e => same e.1 i with
    | some e => .ok e.2
    | none => .error (if i.isKey then .missingKey else .wrongType)
  | _ =>
    match d.elements? with
    | some items => do
      match items[← i.position items.length]? with
      | some item => return item
      | none => throw .indexOutOfRange
    | none => .error .wrongType

/-- The bytes that a value holds: those of a byte string, or the elements of a collection. -/
def collectedBytes (d : Datum) : Except Failure Bytes :=
  match d with
  | bytes b | byteArray b => .ok b
  | list items | tuple items => items.mapM byte
  | dict entries => entries.mapM fun e => e.1.byte
  | _ => .error .wrongType

/-- A byte string of this length is taken to be larger than the memory. -/
def memoryLimit : Int := 0x1000000000

/-- The lengths of sequences are below this. -/
def lengthLimit : Int := 0x8000000000000000

/-- A length in bytes from here on cannot be that of a byte string: a string, its length and 33
bytes of administration have to be addressed by 63 bits. -/
def widthLimit : Int := 0x7fffffffffffffdf

/-- As many zeros as a number says. -/
def zeros (n : Int) : Except Failure Bytes :=
  if n < -lengthLimit ∨ lengthLimit ≤ n then .error (.tooLarge .sequenceLength)
  else if n < 0 then .error .negativeCount
  else if widthLimit ≤ n then .error (.tooLarge .byteStringLength)
  else if memoryLimit ≤ n then .error .outOfMemory
  else .ok (List.replicate n.toNat 0)

/-- The byte string that stands for a value as a message: the bytes that it holds, and for an
integer as many zeros. -/
def message (d : Datum) : Except Failure Bytes :=
  match d.integer? with
  | some n => zeros n
  | none => d.collectedBytes

/-- The byte string that stands for a value as a plaintext: a byte string, or the UTF-8 form of a
text. -/
def plaintext (d : Datum) : Except Failure Bytes :=
  match d with
  | text s => .ok s.toUTF8.data.toList
  | bytes b | byteArray b => .ok b
  | _ => .error (.refuse (.notBytes .plaintext d))

end Datum

end CurveLock

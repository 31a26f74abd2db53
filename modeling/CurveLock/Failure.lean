import CurveLock.Datum
import CurveLock.Number.Inverse
import CurveLock.Number.QuadraticSymbol
import CurveLock.Text.Template

/-!
# Failures and their messages

Why an operation failed, as a cause (`Failure`), and the text that reports it
(`Failure.message?`).

* `Rejection`: an argument that the caller can correct;
* `Breakdown`: a step of the arithmetic that has no result;
* `Failure.refuse` and `Failure.breakdown` raise one of these. A report that would have to write an
  integer of more than `digitLimit` decimal digits cannot be made; `Failure.tooManyDigits` is
  raised in its place.
-/

namespace CurveLock

/-- The roles in which byte strings are handed in. -/
inductive Role where
  | scalar
  | point
  | plaintext
  deriving DecidableEq, Repr

/-- Why an argument is refused. -/
inductive Rejection where
  /-- A negative number has no encoding as bytes. -/
  | negativeInteger (value : Datum)
  /-- An integer of `bits` binary digits needs more than `width` bytes. -/
  | doesNotFit (bits : Nat) (width : Datum)
  /-- The bound of a random number or of a hash value is not positive. -/
  | boundNotPositive (bound : Datum)
  /-- Nothing lies in `[low, high)`. -/
  | emptyRange (low high : Datum)
  /-- A truth value is no curve identifier. -/
  | booleanCurve (id : Bool)
  | unknownCurve (id : Datum)
  /-- A private key outside `[1, n - 1]`. -/
  | keyOutOfRange
  | notBytes (role : Role) (value : Datum)
  | scalarLength (expected got : Nat)
  | pointLength (c : Curve) (expected got : Nat)
  /-- The first byte of a compressed point is neither 2 nor 3. -/
  | badTag (tag : UInt8)
  /-- The written coordinate is not below the prime. -/
  | coordinateTooLarge
  /-- No point of the curve has the written coordinate. -/
  | noSuchPoint (c : Curve)
  /-- An ElGamal ciphertext does not consist of two parts. -/
  | notAPair
  | publicKeyMismatch
  /-- Decryption without the private key. -/
  | cannotDecrypt
  | decryptsToInfinity
  /-- The private key is asked for where there is none. -/
  | noPrivateKey
  | windowOutOfRange (width : Datum)
  | tableBitsNotPositive (bits : Datum)
  | windowNotInteger (text : String)
  /-- The base or the modulus is no integer. -/
  | notIntegers
  | modulusTooSmall (modulus : Int)
  | exponentNotInteger (value : Datum)
  | exponentNegative

/-- Why a step of the arithmetic has no result. -/
inductive Breakdown where
  | notInvertible (modulus : Datum)
  /-- The point at infinity has no compressed form. -/
  | infinityHasNoEncoding
  | noSquareRoot (c : Curve)
  /-- The sum asked for in the group of `c` cannot be computed, as of points of different curves. -/
  | noSum (c : Curve)
  /-- The multiple asked for in the group of `c` cannot be computed. -/
  | noMultiple (c : Curve)

/-- Where the size of a number sets a limit. -/
inductive Limit where
  /-- The number of elements of a sequence. -/
  | sequenceLength
  /-- The length of a byte string. -/
  | byteStringLength
  /-- The length of a text that consists of repetitions. -/
  | repeatedText
  /-- The length of a byte string that consists of repetitions. -/
  | repeatedBytes
  /-- The numbers that a floating-point number can stand for. -/
  | floatRange
  /-- The same, for a power of floating-point numbers. -/
  | powerRange
  /-- The same, for a power of a negative number whose exponent has a fraction. -/
  | complexRange
  /-- The integers; an infinity is above or below all of them. -/
  | integers
  /-- The code points of characters. -/
  | codePoints
  /-- The numbers that are bytes. -/
  | byteValues
  /-- The width that a template takes from a value. -/
  | takenWidth
  /-- The precision that a template takes from a value. -/
  | takenPrecision
  /-- The number of digits with which a template asks an integer to be written. -/
  | digitCount
  /-- The code points by which messages name the bytes of a template. -/
  | namedBytes
  deriving DecidableEq, Repr

/-- Why an operation failed. -/
inductive Failure where
  | refused (r : Rejection)
  | broken (b : Breakdown)
  /-- An integer of more than `digitLimit` digits cannot be written in decimal. -/
  | tooManyDigits
  /-- A width in bytes is negative. -/
  | negativeWidth
  /-- A power has no value. -/
  | power (f : Residue.PowerFault)
  /-- A byte string of negative length. -/
  | negativeCount
  /-- An integer that is no byte. -/
  | notAByte
  /-- A product modulo zero. -/
  | zeroModulus
  /-- A fraction modulo zero. -/
  | zeroFractionModulus
  /-- A negative power of zero. -/
  | zeroPower
  /-- A number is larger than a limit. -/
  | tooLarge (limit : Limit)
  /-- A byte string or text is larger than the memory. -/
  | outOfMemory
  /-- A residue outside the range of residues. -/
  | notAResidue
  /-- What is no number stands for no integer. -/
  | notANumber
  /-- An environment variable cannot hold the character zero. -/
  | zeroInVariable
  /-- A directive of a template is faulty. -/
  | template (f : Template.Fault)
  /-- A fraction has no quadratic symbol. -/
  | noSymbol (f : SymbolFault)
  /-- A value of a type for which the operation is not defined. -/
  | wrongType
  /-- A value of a type that lacks the part that the operation needs. -/
  | missingPart
  /-- Nothing has the given position. -/
  | indexOutOfRange
  /-- No entry of a dictionary has the given key. -/
  | missingKey
  /-- The supply of random numbers is used up. -/
  | noRandomness
  /-- No candidate of a hash to the curve is the coordinate of a point. -/
  | endlessSearch

/-! ### Messages -/

/-- How messages call a byte string in a role. -/
def Role.label : Role → String
  | .scalar => "Scalar"
  | .point => "Point"
  | .plaintext => "plaintext"

/-- The widest window of a digit table. -/
def maxWindow : Nat := 16

namespace Rejection

/-- The integers that the message writes in decimal. -/
def integers : Rejection → List Int
  | negativeInteger v => v.literalIntegers
  | doesNotFit bits width => bits :: width.literalIntegers
  | boundNotPositive b => b.literalIntegers
  | emptyRange low high => low.literalIntegers ++ high.literalIntegers
  | unknownCurve id => id.literalIntegers
  | windowOutOfRange w => w.literalIntegers
  | tableBitsNotPositive b => b.literalIntegers
  | modulusTooSmall m => [m]
  | _ => []

/-- The text that reports a refused argument. -/
def message : Rejection → String
  | negativeInteger v => "Cannot encode negative integer " ++ v.display
  | doesNotFit bits width =>
    s!"Integer of {bits} bits does not fit in " ++ width.display ++ " bytes"
  | boundNotPositive b => "max_value must be positive, got " ++ b.display
  | emptyRange low high => "Empty range [" ++ low.display ++ ", " ++ high.display ++ ")"
  | booleanCurve id => "Invalid curve id: " ++ (Datum.bool id).literal
  | unknownCurve id =>
    "Unsupported curve id " ++ id.literal ++ "; expected one of " ++
      Datum.commaSeparated (Curve.all.map Curve.name)
  | keyOutOfRange => "Private key must be in the range [1, n-1]"
  | notBytes role value => role.label ++ " must be bytes, got " ++ value.typeName
  | scalarLength expected got => s!"Expected {expected} scalar bytes, got {got}"
  | pointLength c expected got =>
    s!"Expected {expected} bytes for a compressed {c.name} point, got {got}"
  | badTag tag => "Invalid prefix byte: 0x" ++ String.ofList (Quoted.hex 2 tag.toNat)
  | coordinateTooLarge => "X coordinate is not a field element"
  | noSuchPoint c => s!"X coordinate does not correspond to a {c.name} point"
  | notAPair => "ElGamal ciphertext must be a pair (c1, c2)"
  | publicKeyMismatch => "Public key does not match the private key"
  | cannotDecrypt => "Decryption requires the ElGamal private key"
  | decryptsToInfinity => "Ciphertext decrypts to the point at infinity"
  | noPrivateKey => "This ElGamal instance has no private key"
  | windowOutOfRange w => s!"window_bits must be in [1, {maxWindow}], got " ++ w.display
  | tableBitsNotPositive b => "max_exp_bits must be positive, got " ++ b.display
  | windowNotInteger text =>
    "COMMUTATIVE_CRYPTO_WINDOW_BITS must be an integer, got " ++ Quoted.text text
  | notIntegers => "fixed_base and modulus must be integers"
  | modulusTooSmall m => s!"modulus must be greater than 1, got {m}"
  | exponentNotInteger value => "Exponent must be an integer, got " ++ value.typeName
  | exponentNegative => "Exponent must not be negative"

end Rejection

namespace Breakdown

/-- The integers that the message writes in decimal. -/
def integers : Breakdown → List Int
  | notInvertible m => m.literalIntegers
  | _ => []

/-- The text that reports a step without a result. -/
def message : Breakdown → String
  | notInvertible m => "Value is not invertible modulo " ++ m.display
  | infinityHasNoEncoding => "Cannot encode the point at infinity"
  | noSquareRoot c => s!"Square root mod p failed on {c.name}"
  | noSum c => s!"Point addition failed on {c.name}"
  | noMultiple c => s!"Scalar multiplication failed on {c.name}"

end Breakdown

namespace Failure

/-- Whether every one of the integers can be written in decimal. -/
def writable (ns : List Int) : Bool := ns.all fun n => n.natAbs < Nat.pow 10 digitLimit

/-- The failure that refuses an argument. -/
def refuse (r : Rejection) : Failure := if writable r.integers then refused r else tooManyDigits

/-- The failure of a step without a result. -/
def breakdown (b : Breakdown) : Failure := if writable b.integers then broken b else tooManyDigits

/-- The text that reports a failure; some are reported by their kind alone. -/
def message? : Failure → Option String
  | refused r => some r.message
  | broken b => some b.message
  | tooManyDigits =>
    some (s!"Exceeds the limit ({digitLimit} digits) for integer string conversion; " ++
      "use sys.set_int_max_str_digits() to increase the limit")
  | negativeWidth => some "length argument must be non-negative"
  | power .zeroModulus => some "pow() 3rd argument cannot be 0"
  | power .notInvertible => some "base is not invertible for the given modulus"
  | negativeCount => some "negative count"
  | notAByte => some "bytes must be in range(0, 256)"
  | zeroModulus => some "integer modulo by zero"
  | zeroFractionModulus => some "float modulo"
  | zeroPower => some "0.0 cannot be raised to a negative power"
  | tooLarge .sequenceLength => some "cannot fit 'int' into an index-sized integer"
  | tooLarge .byteStringLength => some "byte string is too large"
  | tooLarge .repeatedText => some "repeated string is too long"
  | tooLarge .repeatedBytes => some "repeated bytes are too long"
  | tooLarge .floatRange => some "int too large to convert to float"
  | tooLarge .complexRange => some "complex exponentiation"
  | tooLarge .powerRange => some "(34, 'Numerical result out of range')"
  | tooLarge .integers => some "cannot convert float infinity to integer"
  | tooLarge .codePoints => some "%c arg not in range(0x110000)"
  | tooLarge .byteValues => some "%c arg not in range(256)"
  | tooLarge .takenWidth => some "Python int too large to convert to C ssize_t"
  | tooLarge .takenPrecision => some "Python int too large to convert to C int"
  | tooLarge .digitCount => some "precision too large"
  | tooLarge .namedBytes => some "character argument not in range(0x110000)"
  | notANumber => some "cannot convert float NaN to integer"
  | zeroInVariable => some "embedded null byte"
  | template f => some f.message
  | outOfMemory | notAResidue => some ""
  | noSymbol .smallModulus => some "n must be larger than 2"
  | noSymbol .evenModulus => some "n must be odd"
  | wrongType | missingPart | indexOutOfRange | missingKey | noRandomness | endlessSearch => none

end Failure

end CurveLock

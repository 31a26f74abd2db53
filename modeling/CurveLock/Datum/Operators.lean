import CurveLock.Datum.Reading

/-!
# Sums and products of values

Values of any type are added and multiplied as their types allow.

* `Datum.plus`: integers are added; texts, byte strings, lists and tuples are put one after the
  other;
* `Datum.times`: integers are multiplied; texts, byte strings, lists and tuples are repeated.

With a floating-point number among the operands the result is a floating-point number. It is not
computed: the outcome `none` stands for it.
-/

namespace CurveLock

namespace Datum

/-- Fails when a number is an integer to which no floating-point number is near. -/
def checkRange (d : Datum) : Except Failure Unit :=
  match d.integer? with
  | some n => if Scaled.isInRange n then .ok () else .error (.tooLarge .floatRange)
  | none => .ok ()

/-- Whether a value is a number. -/
def isNumber (d : Datum) : Bool := d.number?.isSome

/-- The sum of two values. -/
def plus (a b : Datum) : Except Failure (Option Datum) :=
  match a.integer?, b.integer? with
  | some m, some n => .ok (some (int (m + n)))
  | _, _ =>
    if a.isNumber && b.isNumber then do
      a.checkRange
      b.checkRange
      return none
    else
      match a, b with
      | text s, text t => .ok (some (text (s ++ t)))
      | bytes s, bytes t | bytes s, byteArray t => .ok (some (bytes (s ++ t)))
      | byteArray s, bytes t | byteArray s, byteArray t => .ok (some (byteArray (s ++ t)))
      | list s, list t => .ok (some (list (s ++ t)))
      | tuple s, tuple t => .ok (some (tuple (s ++ t)))
      | _, _ => .error .wrongType

/-- How often a sequence of `size` elements is repeated when a number asks for it. No sequence is
longer than `lengthLimit` or larger than the memory; `long` is the failure of one that would be
longer. -/
def repetitions (size : Nat) (n : Int) (long : Failure) : Except Failure Nat :=
  if n < -lengthLimit ∨ lengthLimit ≤ n then .error (.tooLarge .sequenceLength)
  else if lengthLimit ≤ n * size then .error long
  else if memoryLimit ≤ n * size then .error .outOfMemory
  else .ok (if size = 0 then 0 else n.toNat)

/-- The elements of a list, repeated. -/
def repeated {α : Type} (items : List α) (n : Int) (long : Failure) : Except Failure (List α) := do
  return (List.replicate (← repetitions items.length n long) items).flatten

/-- A sequence, repeated as often as a number says. -/
def repetition (d : Datum) (n : Int) : Except Failure Datum :=
  match d with
  | text s => return text (String.ofList (← repeated s.toList n (.tooLarge .repeatedText)))
  | bytes b => return bytes (← repeated b n (.tooLarge .repeatedBytes))
  | byteArray b => return byteArray (← repeated b n .outOfMemory)
  | list items => return list (← repeated items n .outOfMemory)
  | tuple items => return tuple (← repeated items n .outOfMemory)
  | _ => .error .wrongType

/-- The product of two values. -/
def times (a b : Datum) : Except Failure (Option Datum) :=
  match a.integer?, b.integer? with
  | some m, some n => .ok (some (int (m * n)))
  | m?, n? =>
    if a.isNumber && b.isNumber then do
      a.checkRange
      b.checkRange
      return none
    else
      match m?, n? with
      | some m, _ => return some (← b.repetition m)
      | _, some n => return some (← a.repetition n)
      | _, _ => .error .wrongType

end Datum

end CurveLock

import CurveLock.Failure

/-!
# Comparing values, and dictionaries

* `Datum.same`: whether two values are equal. Numbers are compared by value, whatever their type,
  and so are byte strings; points as points of their curve, and all else by type and content;
* `Datum.order?`: how two values compare. Only numbers compare with numbers, texts with texts, byte
  strings with byte strings, lists with lists and tuples with tuples;
* `Datum.ofEntries`: a dictionary, in which a later entry with an equal key replaces the value and
  keeps the place. Values that can change, and points, are no keys.
-/

namespace CurveLock

namespace Datum

/-! ### Equality -/

mutual

/-- Whether two values are equal. -/
def same (a b : Datum) : Bool :=
  match a.number?, b.number?, a.placed?, b.placed? with
  | some x, some y, _, _ => x.order? y == some .eq
  | _, _, some P, some Q => P == Q
  | _, _, _, _ =>
    match a, b with
    | null, null => true
    | text s, text t => s == t
    | bytes s, bytes t | bytes s, byteArray t | byteArray s, bytes t | byteArray s, byteArray t =>
      s == t
    | list s, list t | tuple s, tuple t => sameItems s t
    | dict s, dict t => s.length == t.length && sameEntries s t
    | handle _ _ m, handle _ _ n => m == n
    | record type s m, record type' t n => m == n || type == type' && sameFields s t
    | _, _ => false

/-- Whether two lists hold equal values in the same order. -/
def sameItems : List Datum → List Datum → Bool
  | [], [] => true
  | a :: s, b :: t => same a b && sameItems s t
  | _, _ => false

/-- Whether every one of the entries has an equal one in a dictionary. -/
def sameEntries : List (Datum × Datum) → List (Datum × Datum) → Bool
  | [], _ => true
  | (k, v) :: s, t => (t.any fun e => same k e.1 && same v e.2) && sameEntries s t

/-- Whether named values are equal, one after the other. -/
def sameFields : List (String × Datum) → List (String × Datum) → Bool
  | [], [] => true
  | (_, v) :: s, (_, w) :: t => same v w && sameFields s t
  | _, _ => false

end

/-! ### Order -/

/-- The lexicographic order of lists of numbers. -/
def lexicographic : List Nat → List Nat → Ordering
  | [], [] => .eq
  | [], _ :: _ => .lt
  | _ :: _, [] => .gt
  | a :: s, b :: t => if a < b then .lt else if a = b then lexicographic s t else .gt

mutual

/-- How two values compare; not at all when a number among them is no number. -/
def order? (a b : Datum) : Except Failure (Option Ordering) :=
  match a.number?, b.number? with
  | some x, some y => .ok (x.order? y)
  | _, _ =>
    match a, b with
    | text s, text t =>
      .ok (some (lexicographic (s.toList.map Char.toNat) (t.toList.map Char.toNat)))
    | bytes s, bytes t | bytes s, byteArray t | byteArray s, bytes t | byteArray s, byteArray t =>
      .ok (some (lexicographic (s.map UInt8.toNat) (t.map UInt8.toNat)))
    | list s, list t | tuple s, tuple t => orderItems s t
    | _, _ => .error .wrongType

/-- How two lists compare: as the first values that differ, or else by length. -/
def orderItems : List Datum → List Datum → Except Failure (Option Ordering)
  | [], [] => .ok (some .eq)
  | [], _ :: _ => .ok (some .lt)
  | _ :: _, [] => .ok (some .gt)
  | a :: s, b :: t => if same a b then orderItems s t else order? a b

end

/-- Whether a value is less than another. -/
def isLess (a b : Datum) : Except Failure Bool := do return (← order? a b) == some .lt

/-- Whether a value is less than another or equal to it. -/
def isAtMost (a b : Datum) : Except Failure Bool := do
  let o ← order? a b
  return o == some .lt || o == some .eq

/-! ### Dictionaries -/

mutual

/-- Whether a value may be a key of a dictionary. -/
def isKey : Datum → Bool
  | list _ | dict _ | byteArray _ | point _ | base _ => false
  | tuple items => areKeys items
  | record _ fields _ => areFieldKeys fields
  | _ => true

/-- Whether all values of a list may be keys. -/
def areKeys : List Datum → Bool
  | [] => true
  | d :: rest => isKey d && areKeys rest

/-- Whether all of some named values may be keys. -/
def areFieldKeys : List (String × Datum) → Bool
  | [] => true
  | (_, v) :: rest => isKey v && areFieldKeys rest

end

/-- Adds an entry at the end, or replaces the value under an equal key. -/
def insertEntry (k v : Datum) : List (Datum × Datum) → List (Datum × Datum)
  | [] => [(k, v)]
  | (k', v') :: rest => if same k' k then (k', v) :: rest else (k', v') :: insertEntry k v rest

/-- The dictionary that results from adding the entries one after the other. -/
def ofEntries (entries : List (Datum × Datum)) : Except Failure Datum :=
  if entries.all fun e => e.1.isKey then
    .ok (dict (entries.foldl (fun acc e => insertEntry e.1 e.2 acc) []))
  else .error .wrongType

end Datum

end CurveLock

import CurveLock.Arithmetic

/-!
# Digit tables

For a base `g`, a modulus `m` and a window of `w` binary digits, row `i` of the table holds the
powers `g ^ (d · 2 ^ (i · w))` for every digit `d < 2 ^ w`. An exponent is the sum of its digits
times powers of `2 ^ w`, so its power is a product of one entry from each row. What is left of an
exponent above the last row is a power of `g ^ (2 ^ (W · w))`, which the table keeps as well.

* `Table.build` computes the rows, each from the last entry of the row before;
* `Table.power` computes a power from them.

Every multiplication is one counted step.
-/

namespace CurveLock

namespace FixedBase

/-- A digit table. -/
structure Table where
  /-- The number of binary digits that make up one digit. -/
  window : Nat
  /-- The rows, lowest digit first. -/
  rows : List (Array Nat)
  /-- The power of the base for the digit after the last row. -/
  overflow : Nat
  deriving DecidableEq, Repr

/-- One counted multiplication modulo `m`. -/
def multiply (m a b : Nat) : Metered Nat := do
  Metered.tick
  return a * b % m

/-- One counted power modulo `m`. -/
def raise (m b e : Nat) : Metered Nat := do
  Metered.tick
  return powMod b e m

namespace Table

/-- The number of digits that a window of binary digits can spell. -/
def radix (window : Nat) : Nat := 1 <<< window

/-- The number of rows that cover `bits` binary digits. -/
def rowCount (bits window : Nat) : Nat := (bits + window - 1) / window

/-- Adds `n` entries to a row whose last entry is `last`, each `g` times the one before. The new
last entry comes with the row. -/
def extendRow (m g : Nat) : (n : Nat) → (row : Array Nat) → (last : Nat) → Metered (Array Nat × Nat)
  | 0, row, last => return (row, last)
  | n + 1, row, last => do
    let next ← multiply m last g
    extendRow m g n (row.push next) next

/-- `n` rows from the power `g` of the base on, and the power for the digit after them. -/
def buildRows (m window : Nat) : (n g : Nat) → Metered (List (Array Nat) × Nat)
  | 0, g => return ([], g)
  | n + 1, g => do
    let (row, last) ← extendRow m g (radix window - 1) #[1 % m] (1 % m)
    let next ← multiply m last g
    let (rows, overflow) ← buildRows m window n next
    return (row :: rows, overflow)

/-- The table of a base that covers exponents of `bits` binary digits. -/
def build (base m window bits : Nat) : Metered Table := do
  let (rows, overflow) ← buildRows m window (rowCount bits window) base
  return ⟨window, rows, overflow⟩

variable (t : Table)

/-- The number of entries in all rows. -/
def size : Nat := t.rows.length * radix t.window

/-- The number of binary digits that the rows cover. -/
def coveredBits : Nat := t.rows.length * t.window

/-- The entry of a row for a digit. -/
def entry? (row digit : Nat) : Option Nat := do (← t.rows[row]?)[digit]?

/-- Multiplies the entries for the digits of `e` into `acc`, leaving out the digits that are zero;
what is left of `e` above the rows comes with the product. -/
def multiplyDigits (m window : Nat) :
    (rows : List (Array Nat)) → (e acc : Nat) → Metered (Nat × Nat)
  | [], e, acc => return (acc, e)
  | row :: rows, e, acc => do
    let digit := e % radix window
    let acc ← if digit = 0 then pure acc else multiply m acc (row.getD digit 0)
    multiplyDigits m window rows (e / radix window) acc

/-- The power of the base with exponent `e`, modulo `m`. -/
def power (m e : Nat) : Metered Nat := do
  let (acc, rest) ← multiplyDigits m t.window t.rows e (1 % m)
  if rest = 0 then return acc
  Metered.record (.exponentTooWide (bitLength e) t.coveredBits)
  let high ← raise m t.overflow rest
  multiply m acc high

end Table

end FixedBase

end CurveLock

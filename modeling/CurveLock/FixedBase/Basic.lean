import CurveLock.FixedBase.Settings
import CurveLock.FixedBase.Table

/-!
# Powers of a fixed base

A base and a modulus, fixed for many exponents (`FixedBase`). The settings decide once, when it is
made, whether a digit table is used; every answer is the same either way.

* `FixedBase.checkNumbers`: the base and the modulus as integers, the base reduced;
* `FixedBase.build`: the fixed base with given settings;
* `Defaults.build`: the same with the caller's settings, or with the process default, which is
  looked up only after the base and the modulus are accepted;
* `FixedBase.power`: a power of the base;
* `FixedBase.entry`: an entry of the digit table.
-/

namespace CurveLock

/-- A base and a modulus, fixed for many exponents. -/
structure FixedBase where
  base : Nat
  modulus : Nat
  /-- The settings with which it was made. -/
  settings : FixedBase.Settings
  /-- The digit table, where one is used. -/
  table : Option FixedBase.Table

namespace FixedBase

/-- The base, reduced, and the modulus, which has to be greater than one. -/
def checkNumbers (base modulus : Datum) : Except Failure (Nat × Nat) :=
  match base, modulus with
  | .int b, .int m =>
    if m ≤ 1 then .error (.refuse (.modulusTooSmall m)) else .ok ((b % m).toNat, m.toNat)
  | _, _ => .error (.refuse .notIntegers)

/-- The fixed base with given settings. -/
def build (base modulus : Nat) (s : Settings) : Metered FixedBase := do
  if s.wantsTable then
    let window ← s.windowWidth
    let table ← Table.build base modulus window (← s.coveredBits modulus)
    Metered.record (.tableBuilt s.window.display table.rows.length table.size)
    return ⟨base, modulus, s, some table⟩
  else
    Metered.record .plainPowers
    return ⟨base, modulus, s, none⟩

/-- The fixed base with the caller's settings, or with the process default where the caller gives
none; and the defaults afterwards. -/
def Defaults.build (d : Defaults) (settings : Option Settings) (base modulus : Datum) :
    Metered FixedBase × Defaults :=
  match checkNumbers base modulus with
  | .error f => (throw f, d)
  | .ok (b, m) =>
    match settings with
    | some s => (FixedBase.build b m s, d)
    | none =>
      match d.get with
      | (.ok s, d') => (FixedBase.build b m s, d')
      | (.error f, d') => (throw f, d')

variable (fixed : FixedBase)

/-- The power with a natural exponent. -/
def powerNat (e : Nat) : Metered Nat :=
  match fixed.table with
  | some t => t.power fixed.modulus e
  | none => raise fixed.modulus fixed.base e

/-- The power with any exponent; one that is no integer, or negative, is refused. -/
def power (exponent : Datum) : Metered Nat :=
  match exponent with
  | .int e => if e < 0 then Metered.refuse .exponentNegative else fixed.powerNat e.toNat
  | d => Metered.refuse (.exponentNotInteger d)

/-- The digit table; a fixed base made without one lacks it. -/
def tableOrFail : Except Failure Table :=
  match fixed.table with
  | some t => .ok t
  | none => .error .missingPart

/-- The entry of the digit table at a row and a digit; negative ones count from the end. -/
def entry (row digit : Datum) : Except Failure Nat := do
  let t ← fixed.tableOrFail
  match t.rows[← row.position t.rows.length]? with
  | some entries => return entries.getD (← digit.position entries.size) 0
  | none => throw .indexOutOfRange

end FixedBase

end CurveLock

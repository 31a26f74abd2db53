import CurveLock.Datum.Reading

/-!
# Settings of fixed-base powers, and the process default

Powers of a fixed base can be computed with or without a digit table; `Settings` says which, and how
large the table is.

* `Settings.make` checks the options that a caller gives, `Settings.ofEnvironment` reads them from
  two environment variables;
* `Settings.same`: whether two settings are equal;
* `Defaults` is the setting in effect where a caller gives none. It is read from the environment
  when it is first needed, and kept until it is replaced; a reading that fails leaves it unread.
-/

namespace CurveLock

namespace FixedBase

/-- How powers of a fixed base are computed, in the values that the caller gave. -/
structure Settings where
  /-- Whether to use a digit table: whatever counts as true means yes. -/
  useTable : Datum := .bool false
  /-- The number of binary digits that make up one digit of the table. -/
  window : Datum := .int 4
  /-- The number of binary digits that the table covers; null stands for those of the modulus. -/
  tableBits : Datum := .null

namespace Settings

/-- Whether the settings ask for a digit table. -/
def wantsTable (s : Settings) : Bool := s.useTable.isTrue

/-- Refuses a window that is not from one up to the widest. -/
def checkWindow (window : Datum) : Except Failure Unit := do
  if !(← Datum.isAtMost (.int 1) window) then throw (.refuse (.windowOutOfRange window))
  if !(← window.isAtMost (.int maxWindow)) then throw (.refuse (.windowOutOfRange window))

/-- Refuses a width of the table that is not positive. -/
def checkTableBits (tableBits : Datum) : Except Failure Unit := do
  match tableBits with
  | .null => return
  | bits => if ← bits.isAtMost (.int 0) then throw (.refuse (.tableBitsNotPositive bits))

/-- The settings with the given options. The window is checked before the width of the table is
looked at. -/
def make (useTable window tableBits : Datum) : Except Failure Settings := do
  checkWindow window
  checkTableBits tableBits
  return { useTable, window, tableBits }

/-- Whether two settings are equal, option by option. -/
def same (s t : Settings) : Bool :=
  s.useTable.same t.useTable && s.window.same t.window && s.tableBits.same t.tableBits

/-- Settings as a value, with a number of its own. -/
def toDatum (s : Settings) (id : Nat) : Datum :=
  .record "FixedBaseExpConfig"
    [("two_k_ary_exp", s.useTable), ("window_bits", s.window), ("max_exp_bits", s.tableBits)] id

/-- The window as a natural number; one that is no integer has no table. -/
def windowWidth (s : Settings) : Except Failure Nat := do return (← s.window.number).toNat

/-- The number of binary digits that a table for the given modulus covers. -/
def coveredBits (s : Settings) (modulus : Nat) : Except Failure Nat :=
  match s.tableBits with
  | .null => .ok (bitLength modulus)
  | bits => do return (← bits.number).toNat

end Settings

/-! ### The environment -/

/-- The two environment variables; each may be unset. -/
structure Environment where
  /-- Whether to use a digit table, as a word. -/
  useTable : Option String := none
  /-- The window, as a numeral. -/
  window : Option String := none
  deriving DecidableEq, Repr

/-- What a value makes of an environment variable: a text without the character zero, or unset. -/
def Environment.variable? : Datum → Except Failure (Option String)
  | .null => .ok none
  | .text s => if s.toList.contains '\x00' then .error .zeroInVariable else .ok (some s)
  | _ => .error .wrongType

/-- The words that mean yes. -/
def yesWords : List String := ["1", "true", "yes", "on"]

/-- The settings that the environment asks for. -/
def Settings.ofEnvironment (env : Environment) : Except Failure Settings :=
  let useTable := yesWords.contains (Text.keyword (env.useTable.getD ""))
  let text := env.window.getD "4"
  match Numeral.read? text with
  | some window => make (.bool useTable) (.int window) .null
  | none => .error (.refuse (.windowNotInteger text))

/-! ### The process default -/

/-- The environment, and the settings in effect where a caller gives none, once they are known. -/
structure Defaults where
  environment : Environment := {}
  loaded : Option Settings := none

namespace Defaults

/-- The default settings, read from the environment if they are not known yet. -/
def get (d : Defaults) : Except Failure Settings × Defaults :=
  match d.loaded with
  | some s => (.ok s, d)
  | none =>
    match Settings.ofEnvironment d.environment with
    | .ok s => (.ok s, { d with loaded := some s })
    | .error f => (.error f, d)

/-- Replaces the default settings; none has them read again when they are next needed. -/
def set (d : Defaults) (s : Option Settings) : Defaults := { d with loaded := s }

/-- Sets the variable that asks for a table; null unsets it. -/
def setUseTable (d : Defaults) (value : Datum) : Except Failure Defaults := do
  return { d with environment := { d.environment with useTable := ← Environment.variable? value } }

/-- Sets the variable that holds the window; null unsets it. -/
def setWindow (d : Defaults) (value : Datum) : Except Failure Defaults := do
  return { d with environment := { d.environment with window := ← Environment.variable? value } }

end Defaults

end FixedBase

end CurveLock

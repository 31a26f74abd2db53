import CurveLock.Failure

/-!
# Counted operations

Operations that count their steps, draw random numbers and keep a log. What they read and change is
a `Scratch`; they are programs of the monad `Metered`, which keeps the scratch as it stands when an
operation fails.

* `Metered.tick` counts one step;
* `Metered.draw` takes the next random number from the supply;
* `Metered.record` adds an event to the log.
-/

namespace CurveLock

/-! ### The log -/

/-- What the log tells of. -/
inductive Event where
  /-- A cipher was made with a new key. -/
  | cipherCreated (c : Curve)
  /-- A cipher was made from a stored key. -/
  | cipherRestored (c : Curve)
  /-- An ElGamal key pair was generated. -/
  | keyPairGenerated (c : Curve)
  /-- Fixed-base powers are computed without a table. -/
  | plainPowers
  /-- A digit table was built; the window is written as the caller gave it. -/
  | tableBuilt (window : String) (rows entries : Nat)
  /-- An exponent of `bits` binary digits is wider than the `covered` ones of the table. -/
  | exponentTooWide (bits covered : Nat)
  deriving DecidableEq, Repr

/-- The line of the log: level, channel and text. -/
def Event.line : Event → String
  | cipherCreated c =>
    s!"DEBUG commutative_crypto.cipher: Created commutative cipher with new key on {c.name}"
  | cipherRestored c =>
    s!"DEBUG commutative_crypto.cipher: Created commutative cipher from stored key on {c.name}"
  | keyPairGenerated c =>
    s!"DEBUG commutative_crypto.elgamal: Generated ElGamal key pair on {c.name}"
  | plainPowers =>
    "DEBUG commutative_crypto.fixed_base_exp: Using simple fixed-base exponentiation"
  | tableBuilt window rows entries =>
    s!"DEBUG commutative_crypto.fixed_base_exp: Built 2^k-ary fixed-base table: w={window}, " ++
      s!"{rows} windows, {entries} entries"
  | exponentTooWide bits covered =>
    "WARNING commutative_crypto.fixed_base_exp: Exponent of " ++ toString bits ++
      " bits exceeds the " ++ toString covered ++ "-bit precomputed table"

/-! ### The state -/

/-- What counted operations read and change. -/
structure Scratch where
  /-- The number of steps counted so far. -/
  opCount : Nat := 0
  /-- The random numbers still to be drawn. -/
  supply : List Int := []
  /-- The events so far, oldest first. -/
  log : List Event := []
  deriving DecidableEq, Repr

/-- A program that may fail and leaves the scratch as it stood then. -/
abbrev Metered := EStateM Failure Scratch

namespace Metered

/-- A result that needs no scratch. -/
def ofExcept {α : Type} : Except Failure α → Metered α
  | .ok a => pure a
  | .error f => throw f

instance : MonadLift (Except Failure) Metered := ⟨ofExcept⟩

/-- Fails because an argument is refused. -/
def refuse {α : Type} (r : Rejection) : Metered α := throw (.refuse r)

/-- Counts one step. -/
def tick : Metered Unit := modify fun s => { s with opCount := s.opCount + 1 }

/-- Adds an event to the log. -/
def record (e : Event) : Metered Unit := modify fun s => { s with log := s.log ++ [e] }

/-- The next random number, reduced modulo `n`. -/
def draw (n : Nat) : Metered Nat := do
  match (← get).supply with
  | [] => throw .noRandomness
  | v :: rest =>
    modify fun s => { s with supply := rest }
    return (v % n).toNat

/-! ### What each of these does to the scratch -/

@[simp] theorem run_ofExcept_ok {α : Type} (a : α) (s : Scratch) :
    (ofExcept (.ok a)).run s = .ok a s := rfl

@[simp] theorem run_ofExcept_error {α : Type} (f : Failure) (s : Scratch) :
    (ofExcept (.error f) : Metered α).run s = .error f s := rfl

@[simp] theorem run_refuse {α : Type} (r : Rejection) (s : Scratch) :
    (refuse r : Metered α).run s = .error (.refuse r) s := rfl

@[simp] theorem run_tick (s : Scratch) :
    tick.run s = .ok () { s with opCount := s.opCount + 1 } := rfl

@[simp] theorem run_record (e : Event) (s : Scratch) :
    (record e).run s = .ok () { s with log := s.log ++ [e] } := rfl

theorem run_draw_cons (n : Nat) (v : Int) (rest : List Int) (s : Scratch)
    (h : s.supply = v :: rest) :
    (draw n).run s = .ok (v % n).toNat { s with supply := rest } := by
  cases s
  subst h
  rfl

theorem run_draw_nil (n : Nat) (s : Scratch) (h : s.supply = []) :
    (draw n).run s = .error .noRandomness s := by
  cases s
  subst h
  rfl

end Metered

end CurveLock

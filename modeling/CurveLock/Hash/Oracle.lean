import CurveLock.Datum.Reading
import CurveLock.Hash.Sha256
import CurveLock.Scratch

/-!
# The random oracle

A hash of any byte string to an integer below a given bound. Block `i`, counted from one, is the
SHA-256 hash of `i` in as few bytes as possible followed by the data. The first
`bitLength bound + 256` bits of the blocks, one after the other, are reduced modulo the bound; the
256 bits more than the bound needs keep every outcome almost equally likely.

* `Oracle.blockCount`: how many blocks supply these bits;
* `Oracle.combine`, `Oracle.value`: the outcome from the blocks, and from the data;
* `Metered.oracle`: the whole hash, one counted step a block.
-/

namespace CurveLock

namespace Oracle

/-- The number of bits that are reduced modulo the bound. -/
def outputBits (bound : Nat) : Nat := bitLength bound + 256

/-- The least number of blocks that supply the output bits. -/
def blockCount (bound : Nat) : Nat := (outputBits bound + 255) / 256

/-- The number of bits of the last block that are left out. -/
def excessBits (bound : Nat) : Nat := blockCount bound * 256 - outputBits bound

/-- The byte string whose hash is block `i`. -/
def blockInput (i : Nat) (data : Bytes) : Bytes := Bytes.ofNat i ++ data

/-- Block `i`, as a number of 256 bits. -/
def block (i : Nat) (data : Bytes) : Nat := (sha256 (blockInput i data)).toNat

/-- Numbers of 256 bits as one number, the first of them on top. -/
def concatenation (blocks : List Nat) : Nat := blocks.foldl (fun acc b => (acc <<< 256) + b) 0

/-- The outcome below the bound that the blocks yield. -/
def combine (bound : Nat) (blocks : List Nat) : Nat :=
  (concatenation blocks >>> excessBits bound) % bound

/-- The outcome of the random oracle, without counting. -/
def value (data : Bytes) (bound : Nat) : Nat :=
  combine bound ((List.range (blockCount bound)).map fun i => block (i + 1) data)

end Oracle

namespace Metered

/-- The SHA-256 hash of a byte string, one counted step. -/
def sha256 (data : Bytes) : Metered Bytes := do
  tick
  return CurveLock.sha256 data

/-- Blocks `i`, `i + 1`, … of the random oracle, `n` of them, as numbers. -/
def oracleBlocks (data : Bytes) : (n i : Nat) → Metered (List Nat)
  | 0, _ => return []
  | n + 1, i => do
    let block ← sha256 (Oracle.blockInput i data)
    return block.toNat :: (← oracleBlocks data n (i + 1))

/-- The random oracle with outcomes below a positive bound. -/
def oracleBelow (data : Bytes) (bound : Nat) : Metered Nat := do
  return Oracle.combine bound (← oracleBlocks data (Oracle.blockCount bound) 1)

/-- The random oracle on any value and with any bound. A bound that is not positive is refused
before the value is looked at, which has to be a byte string. -/
def oracle (data bound : Datum) : Metered Nat := do
  if ← bound.isAtMost (.int 0) then refuse (.boundNotPositive bound)
  match bound.integer? with
  | none => throw .missingPart
  | some n => oracleBelow (← data.suffix) n.toNat

end Metered

end CurveLock

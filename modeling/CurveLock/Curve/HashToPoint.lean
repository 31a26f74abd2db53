import CurveLock.Curve.Compressed
import CurveLock.Hash.Oracle

/-!
# Hashing to a curve

The random oracle turns a message into a first candidate below the prime, and each candidate,
written in as few bytes as possible, into the next. The first candidate `x` for which
`x³ + a·x + b` is a nonzero square is the first coordinate of the point, and its second coordinate
is the even root (`Curve.hashToPoint`).

A candidate depends only on the one before it, so after as many candidates as there are residues
one has come twice, and no new one follows. The search therefore stops after `p` candidates; it has
then seen every candidate there is.

* `Curve.candidate`: the chain of candidates, without counting.
-/

namespace CurveLock

namespace Curve

variable (c : Curve)

/-- The chain of candidates for a message: the random oracle on the message, and then on each
candidate before. -/
def candidate (message : Bytes) : Nat → Nat
  | 0 => Oracle.value message c.prime
  | i + 1 => Oracle.value (Bytes.ofNat (candidate message i)) c.prime

/-- The point over the first candidate from `x` on that has one, looking at no more than `limit`
candidates. -/
def searchPoint : (limit : Nat) → (x : Nat) → Metered Point
  | 0, _ => throw .endlessSearch
  | limit + 1, x =>
    let v := c.rightSide x
    if c.isSquare v then do
      let y ← c.root v
      return .affine x (c.withParity false y)
    else do
      let next ← Metered.oracleBelow (Bytes.ofNat x) c.prime
      searchPoint limit next

/-- The point to which a message is hashed. -/
def hashToPoint (message : Bytes) : Metered Point := do
  let x ← Metered.oracleBelow message c.prime
  c.searchPoint c.prime x

end Curve

end CurveLock

import CurveLock.Number.Scaled
import CurveLock.Number.SquareRoot

/-!
# The quadratic symbol

The symbol of `a` modulo an odd `n` says whether `a` is a square there: it is one for the nonzero
squares modulo a prime, minus one for the non-squares, and zero where the two have a common factor.
It is found by reciprocity, with no powers.

* `quadraticSymbol`: the symbol of a natural number;
* `Scaled.symbol`: the same procedure on a floating-point number. One with a fraction has no symbol.
-/

namespace CurveLock

/-- The sign that the factor two, taken out `twos` times, contributes modulo `n`. -/
def signOfTwos (n twos : Nat) : Int :=
  if twos % 2 = 0 || n % 8 = 1 || n % 8 = 7 then 1 else -1

/-- The sign with which the symbol of an odd `a` modulo `n` turns into that of `n` modulo `a`. -/
def signOfSwap (n a : Nat) : Int := if n % 4 = 3 && a % 4 = 3 then -1 else 1

/-- The symbol of `a` modulo the odd number `n`, taking no more than `steps` swaps. -/
def quadraticSymbol : (steps a n : Nat) → Int
  | 0, _, _ => 0
  | steps + 1, a, n =>
    let a := a % n
    if a = 0 then 0
    else
      let (odd, twos) := oddPart (bitLength a) a
      if odd = 1 then signOfTwos n twos
      else signOfTwos n twos * signOfSwap n odd * quadraticSymbol steps n odd

/-- Why a fraction has no symbol. -/
inductive SymbolFault where
  /-- It has to be found modulo a number below three. -/
  | smallModulus
  /-- It has to be found modulo a number that is not odd. -/
  | evenModulus
  deriving DecidableEq, Repr

namespace Scaled

/-- The symbol of a floating-point number modulo `p`. What is left of it after the division by `p`
is swapped with the floating-point number nearest to `p`. -/
def symbol (x : Scaled) (p : Nat) : Except SymbolFault Int :=
  match x.remainder p with
  | none => .error .smallModulus
  | some v =>
    if v = 0 then .ok 0
    else if v % one ≠ 0 then .error (if v < 3 * one then .smallModulus else .evenModulus)
    else
      let a := (v / one).toNat
      let (odd, twos) := oddPart (bitLength a) a
      if odd = 1 then .ok (signOfTwos p twos)
      else .ok (signOfTwos p twos * signOfSwap p odd * quadraticSymbol odd (roundDigits p) odd)

end Scaled

end CurveLock

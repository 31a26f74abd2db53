/-!
# Shortest decimals of binary fractions

A 64-bit floating-point number is written with the fewest decimal digits that still read back as
the same number, and with those digits that come nearest to it.

* `BinaryFloat.ofBits` takes the 64 bits apart;
* `BinaryFloat.shortest` tries ever finer grids of decimals `d · 10 ^ e` and takes the first that
  has a point among the reals that round to the number; of two such points the nearer, and of two
  equally near the one with an even `d`;
* `BinaryFloat.text` lays the digits out: positional when the leading digit stands for
  `10 ^ -4` up to `10 ^ 15`, and with an exponent otherwise.
-/

namespace CurveLock

/-- A floating-point number: a sign and the magnitude `m · 2 ^ q`, an infinity, or no number. -/
inductive BinaryFloat where
  | nan
  | infinite (negative : Bool)
  /-- A magnitude `m · 2 ^ q`; `narrow` says that the number below is only half as far away as the
  one above. -/
  | finite (negative : Bool) (m : Nat) (q : Int) (narrow : Bool)
  deriving DecidableEq, Repr

namespace BinaryFloat

/-- The number that 64 bits stand for: a sign bit, eleven exponent bits, 52 fraction bits. -/
def ofBits (bits : UInt64) : BinaryFloat :=
  let n := bits.toNat
  let negative := n >>> 63 == 1
  let e : Nat := (n >>> 52) % 0x800
  let f : Nat := n % 0x10000000000000
  if e = 2047 then (if f = 0 then .infinite negative else .nan)
  else if e = 0 then .finite negative f (-1074) false
  else .finite negative (0x10000000000000 + f) ((e : Int) - 1075) (f == 0 && e != 1)

/-- The decimals `d · 10 ^ e` that round to `m · 2 ^ q`, as the best such `d`. Both scales are made
whole numbers: `step` is the weight of one step of the decimal grid and `quarter` that of a quarter
of the last binary place. -/
def onGrid? (m : Nat) (q : Int) (narrow : Bool) (e : Int) : Option Nat :=
  let step := Nat.pow 10 e.toNat <<< (2 - q).toNat
  let quarter := Nat.pow 10 (-e).toNat <<< (q - 2).toNat
  let value := 4 * m * quarter
  let low := (4 * m - if narrow then 1 else 2) * quarter
  let high := (4 * m + 2) * quarter
  let readsBack (d : Nat) : Bool :=
    if m % 2 = 0 then low ≤ d * step && d * step ≤ high else low < d * step && d * step < high
  let d := value / step
  let below := value - d * step
  let above := (d + 1) * step - value
  match readsBack d, readsBack (d + 1) with
  | true, true =>
    if below < above then some d
    else if above < below then some (d + 1)
    else some (d + d % 2)
  | true, false => some d
  | false, true => some (d + 1)
  | false, false => none

/-- The shortest decimal `d · 10 ^ e` of a magnitude that is not zero. On the grid of `10 ^ -1074`
every magnitude is a point, so one of the grids has a hit. -/
def shortest (m : Nat) (q : Int) (narrow : Bool) : Nat × Int :=
  ((List.range 1385).findSome? fun (i : Nat) =>
    let e : Int := 310 - (i : Int)
    (onGrid? m q narrow e).map fun d => (d, e)).getD (0, 0)

/-- The exponent of ten with its sign and at least two digits. -/
def exponentText (e : Int) : List Char :=
  let ds := Nat.toDigits 10 e.natAbs
  'e' :: (if e < 0 then '-' else '+') :: (List.replicate (2 - ds.length) '0' ++ ds)

/-- The decimal `d · 10 ^ e` with a point, or with an exponent. -/
def layout (d : Nat) (e : Int) : List Char :=
  let ds := Nat.toDigits 10 d
  let size : Int := ds.length
  -- the leading digit stands for this power of ten
  let top := e + size - 1
  if top < -4 || 16 ≤ top then
    match ds with
    | [c] => c :: exponentText top
    | c :: rest => c :: '.' :: (rest ++ exponentText top)
    | [] => []
  else if top < 0 then '0' :: '.' :: (List.replicate (-top - 1).toNat '0' ++ ds)
  else if 0 ≤ e then ds ++ List.replicate e.toNat '0' ++ ['.', '0']
  else ds.take (top + 1).toNat ++ '.' :: ds.drop (top + 1).toNat

/-- The text of a floating-point number. -/
def text : BinaryFloat → String
  | .nan => "nan"
  | .infinite negative => if negative then "-inf" else "inf"
  | .finite negative m q narrow =>
    let body := if m = 0 then ['0', '.', '0'] else
      let (d, e) := shortest m q narrow
      layout d e
    String.ofList (if negative then '-' :: body else body)

end BinaryFloat

end CurveLock

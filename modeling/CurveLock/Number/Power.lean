import CurveLock.Bytes

/-!
# Powers by repeated doubling

* `doubleAndAdd op unit x n` combines `n` copies of `x`, looking at the binary digits of `n`
  from the top: each digit doubles what there is, and a one adds `x`;
* `powMod b e m` is the power `b ^ e` reduced modulo `m`.

Both points of a curve and residues use the same loop.
-/

namespace CurveLock

/-- `n` copies of `x` combined by `op`, starting from `unit`. -/
def doubleAndAdd {α : Type} (op : α → α → α) (unit x : α) (n : Nat) : α :=
  go (bitLength n) n
where
  /-- The same for the `k` lowest binary digits of `n`. -/
  go : Nat → Nat → α
    | 0, _ => unit
    | k + 1, n =>
      let half := go k (n / 2)
      let doubled := op half half
      if n % 2 = 1 then op doubled x else doubled

/-- `b ^ e` modulo `m`. -/
def powMod (b e m : Nat) : Nat := doubleAndAdd (fun x y => x * y % m) (1 % m) (b % m) e

end CurveLock

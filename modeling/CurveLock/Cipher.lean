import CurveLock.Curve.Lookup
import CurveLock.Datum.Group

/-!
# The commutative cipher

A cipher multiplies points by its key. Keys of several ciphers of one curve can be put on and taken
off in any order: `k · (l · P) = l · (k · P)`, and a key is taken off by its inverse modulo the
order of the group.

* `Cipher.ofKey`, `Cipher.ofDatum`, `Cipher.create`, `Cipher.restore`: making a cipher from an
  integer, from any value, with a new key, and from the bytes of a stored key;
* `Cipher.encrypt` hashes a plaintext to the curve and puts the key on;
* `Cipher.reEncrypt` and `Cipher.decrypt` put the key on a ciphertext and take it off;
* `Cipher.reEncryptPair` puts the key on both parts of an ElGamal ciphertext, which then is one of
  the multiplied message under the same public key.
-/

namespace CurveLock

/-- A cipher of the curve `c`. -/
structure Cipher (c : Curve) where
  /-- The private key. -/
  key : Key c
  /-- The inverse of the key modulo the order. -/
  inverse : Nat
  deriving DecidableEq, Repr

namespace Cipher

variable {c : Curve}

/-! ### Making a cipher -/

/-- The cipher with a given key. -/
def ofKey (c : Curve) (k : Int) : Metered (Cipher c) := do
  let key ← c.key k
  let inverse ← Metered.inverseMod key.val c.order
  return ⟨key, inverse.toNat⟩

/-- The cipher whose key is given as a value of any type. One in range that is no integer fails
where its inverse is needed. -/
def ofDatum (c : Curve) (key : Datum) : Metered (Cipher c) := do
  key.checkKey c
  match key.integer? with
  | some k => ofKey c k
  | none => Datum.failedStep .wrongType

/-- A cipher with a new random key. -/
def create (c : Curve) : Metered (Cipher c) := do
  let cipher ← ofKey c (← c.randomScalar)
  Metered.record (.cipherCreated c)
  return cipher

/-- The cipher with a stored key. -/
def restore (c : Curve) (key : Datum) : Metered (Cipher c) := do
  let k ← c.decodeScalar key
  let cipher ← ofKey c k
  Metered.record (.cipherRestored c)
  return cipher

/-- The key as it is stored. -/
def keyBytes (cipher : Cipher c) : Except Failure Bytes := c.encodeScalar cipher.key.val

/-- How a cipher is shown: by its curve, and never by its key. -/
def description (_ : Cipher c) : String := "ECCommutativeCipher(curve=" ++ c.name ++ ")"

/-! ### Putting the key on and taking it off -/

/-- Multiplies a point by a scalar and writes the result. -/
def scale (c : Curve) (P : Point) (k : Nat) : Metered Bytes := do
  let Q ← c.mul P k
  c.encodePoint Q

/-- The encrypted hash of a plaintext. -/
def encrypt (cipher : Cipher c) (plaintext : Datum) : Metered Bytes := do
  let message ← plaintext.plaintext
  let P ← c.hashToPoint message
  scale c P cipher.key.val

/-- A ciphertext with the key put on. -/
def reEncrypt (cipher : Cipher c) (ciphertext : Datum) : Metered Bytes := do
  let P ← c.decodePoint ciphertext
  scale c P cipher.key.val

/-- A ciphertext with the key taken off. -/
def decrypt (cipher : Cipher c) (ciphertext : Datum) : Metered Bytes := do
  let P ← c.decodePoint ciphertext
  scale c P cipher.inverse

/-- An ElGamal ciphertext with the key put on both parts. Both are read before either is
multiplied. -/
def reEncryptPair (cipher : Cipher c) (ciphertext : Datum) : Metered (Bytes × Bytes) := do
  let (P, Q) ← c.decodePair ciphertext
  let p ← scale c P cipher.key.val
  let q ← scale c Q cipher.key.val
  return (p, q)

end Cipher

end CurveLock

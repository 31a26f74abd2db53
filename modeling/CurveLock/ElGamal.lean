import CurveLock.Curve.Group
import CurveLock.Curve.Lookup
import CurveLock.Curve.Weighted

/-!
# ElGamal encryption of points

The private key is an integer `x`, the public key the point `Y = x · G`. A message, which is a point
`M`, is encrypted with a random `r` as `(r · G, M + r · Y)`, and decrypted as
`M = C₂ - x · C₁`.

* `ElGamal.create`, `ElGamal.ofPublic`, `ElGamal.ofPair`: a new key pair, a public key alone, and a
  stored key pair whose parts have to belong together;
* `ElGamal.encrypt`, `ElGamal.encryptIdentity`, `ElGamal.decrypt`; `ElGamal.unmask` is decryption on
  points.

Decryption is the one operation that subtracts, and what it finds depends on how the library
represents points between its steps. It is therefore written over any arithmetic of points
(`ElGamal.decryptIn`), and runs in weighted coordinates. The other operations only multiply and add,
which on all representations gives the sums and multiples of the group.
-/

namespace CurveLock

/-- The keys of an ElGamal user on the curve `c`; whoever knows only the public key can encrypt and
not decrypt. -/
structure ElGamal (c : Curve) where
  publicKey : Point
  privateKey : Option (Key c)
  deriving DecidableEq, Repr

namespace ElGamal

variable {c : Curve}

/-! ### Keys -/

/-- A new random key pair. -/
def create (c : Curve) : Metered (ElGamal c) := do
  let key ← c.newKey
  Metered.record (.keyPairGenerated c)
  let Y ← c.mul c.generator key.val
  return ⟨Y, some key⟩

/-- A public key alone. -/
def ofPublic (c : Curve) (publicKey : Datum) : Metered (ElGamal c) := do
  let Y ← c.decodePoint publicKey
  return ⟨Y, none⟩

/-- A stored key pair. -/
def ofPair (c : Curve) (publicKey privateKey : Datum) : Metered (ElGamal c) := do
  let Y ← c.decodePoint publicKey
  let k ← c.decodeScalar privateKey
  let key ← c.key k
  if (← c.mul c.generator key.val) ≠ Y then Metered.refuse .publicKeyMismatch
  return ⟨Y, some key⟩

/-- The public key as it is stored. -/
def publicBytes (keys : ElGamal c) : Except Failure Bytes := c.encodePoint keys.publicKey

/-- The private key as it is stored. -/
def privateBytes (keys : ElGamal c) : Except Failure Bytes :=
  match keys.privateKey with
  | some key => c.encodeScalar key.val
  | none => .error (.refuse .noPrivateKey)

/-! ### Encryption and decryption -/

/-- Writes the two parts of a ciphertext. -/
def encodePair (c : Curve) (P Q : Point) : Except Failure (Bytes × Bytes) := do
  let p ← c.encodePoint P
  let q ← c.encodePoint Q
  return (p, q)

/-- The ciphertext of a message, which is the compressed form of a point. -/
def encrypt (keys : ElGamal c) (message : Datum) : Metered (Bytes × Bytes) := do
  let M ← c.decodePoint message
  let r ← c.randomScalar
  let C₁ ← c.mul c.generator r
  let mask ← c.mul keys.publicKey r
  let C₂ ← c.sum M mask
  encodePair c C₁ C₂

/-- A ciphertext of the point at infinity. -/
def encryptIdentity (keys : ElGamal c) : Metered (Bytes × Bytes) := do
  let r ← c.randomScalar
  let C₁ ← c.mul c.generator r
  let C₂ ← c.mul keys.publicKey r
  encodePair c C₁ C₂

/-- The message `C₂ - x · C₁` of the ciphertext points, in a given arithmetic of points. -/
def unmask (ops : c.Arithmetic) (key : Key c) (C₁ C₂ : Point) : Metered Point := do
  Metered.tick
  let mask := ops.mul key.val C₁
  Metered.tick
  return ops.toPoint (ops.add C₂ (ops.neg mask))

/-- The message of a ciphertext, in a given arithmetic of points. -/
def decryptIn (ops : c.Arithmetic) (keys : ElGamal c) (ciphertext : Datum) : Metered Bytes := do
  match keys.privateKey with
  | none => Metered.refuse .cannotDecrypt
  | some key =>
    let (C₁, C₂) ← c.decodePair ciphertext
    let M ← unmask ops key C₁ C₂
    if M = .infinity then Metered.refuse .decryptsToInfinity
    c.encodePoint M

/-- The message of a ciphertext, in weighted coordinates. -/
def decrypt (keys : ElGamal c) (ciphertext : Datum) : Metered Bytes :=
  keys.decryptIn c.weighted ciphertext

end ElGamal

end CurveLock

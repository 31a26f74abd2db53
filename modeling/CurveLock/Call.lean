import CurveLock.Cipher
import CurveLock.ElGamal
import CurveLock.FixedBase.Basic

/-!
# Calls

Every operation of the library that works on a scratch, as data: which operation, on which curve,
keys or fixed base, with which arguments (`Call`), and what it returns (`Outcome`). `Call.run` is
the operation itself. Arguments are values of any type; an operation refuses or fails on the types
that it does not accept.
-/

namespace CurveLock

/-- The version of the library. -/
def version : String := "0.1.0"

/-- What an operation returns. -/
inductive Outcome where
  | nothing
  | truth (b : Bool)
  | integer (n : Int)
  | bytes (b : Bytes)
  | pair (p q : Bytes)
  | point (P : PlacedPoint)
  /-- A value of any type. -/
  | value (d : Datum)
  | group (c : Curve)
  | cipher (c : Curve) (cipher : Cipher c)
  | elGamal (c : Curve) (keys : ElGamal c)

/-- One operation with its arguments. -/
inductive Call where
  -- hashing, random numbers and modular arithmetic
  | sha256 (data : Datum)
  | oracle (data bound : Datum)
  | mulMod (a b modulus : Datum)
  | powMod (base exponent modulus : Datum)
  | inverseMod (value modulus : Datum)
  | randomBelow (bound : Datum)
  | randomBetween (low high : Datum)
  -- the group of a curve
  | group (curve : Datum)
  | randomScalar (c : Curve)
  | checkKey (c : Curve) (key : Datum)
  | encodeScalar (c : Curve) (value : Datum)
  | decodeScalar (c : Curve) (data : Datum)
  | encodePoint (c : Curve) (point : Datum)
  | decodePoint (c : Curve) (data : Datum)
  | rightSide (c : Curve) (x : Datum)
  | isSquare (c : Curve) (value : Datum)
  | evenRoot (c : Curve) (value : Datum)
  | hashToPoint (c : Curve) (message : Datum)
  | mul (c : Curve) (point scalar : Datum)
  | baseMul (c : Curve) (scalar : Datum)
  | add (c : Curve) (p q : Datum)
  -- ciphers
  | createCipher (curve : Datum)
  | restoreCipher (curve key : Datum)
  | cipherOfKey (c : Curve) (key : Datum)
  | encrypt (c : Curve) (cipher : Cipher c) (plaintext : Datum)
  | reEncrypt (c : Curve) (cipher : Cipher c) (ciphertext : Datum)
  | decrypt (c : Curve) (cipher : Cipher c) (ciphertext : Datum)
  | reEncryptPair (c : Curve) (cipher : Cipher c) (ciphertext : Datum)
  | keyBytes (c : Curve) (cipher : Cipher c)
  -- ElGamal
  | createElGamal (curve : Datum)
  | elGamalOfPublic (curve publicKey : Datum)
  | elGamalOfPair (curve publicKey privateKey : Datum)
  | elGamalEncrypt (c : Curve) (keys : ElGamal c) (message : Datum)
  | elGamalEncryptIdentity (c : Curve) (keys : ElGamal c)
  | elGamalDecrypt (c : Curve) (keys : ElGamal c) (ciphertext : Datum)
  | elGamalPublicBytes (c : Curve) (keys : ElGamal c)
  | elGamalPrivateBytes (c : Curve) (keys : ElGamal c)
  -- powers of a fixed base
  | fixedPower (fixed : FixedBase) (exponent : Datum)

namespace Call

/-- A value that has to be a point. -/
def placedPoint (d : Datum) : Except Failure PlacedPoint :=
  match d.placed? with
  | some P => .ok P
  | none => .error .missingPart

/-- A pair of byte strings as an outcome. -/
def pairOf (r : Bytes × Bytes) : Outcome := .pair r.1 r.2

/-- Runs an operation. -/
def run : Call → Metered Outcome
  | sha256 data => do
    return .bytes (← Metered.sha256 (← data.byteString))
  | oracle data bound => do
    return .integer (← Metered.oracle data bound : Nat)
  | mulMod a b modulus => do
    return .value (← a.mulMod b modulus)
  | powMod base exponent modulus => do
    return .integer (← base.powMod exponent modulus)
  | inverseMod value modulus => do
    return .integer (← value.inverseMod modulus)
  | randomBelow bound => do
    return .integer (← bound.randomBelow)
  | randomBetween low high => do
    return .integer (← low.randomBetween high)
  | group curve => do
    return .group (← Curve.find curve)
  | randomScalar c => do
    return .integer (← c.randomScalar)
  | checkKey c key => do
    key.checkKey c
    return .nothing
  | encodeScalar c value => do
    return .bytes (← value.encode (.int c.scalarWidth))
  | decodeScalar c data => do
    return .integer (← c.decodeScalar data : Nat)
  | encodePoint c point => do
    return .bytes (← c.encodePoint (← placedPoint point).toPoint)
  | decodePoint c data => do
    return .point (.ofPoint c (← c.decodePoint data))
  | rightSide c x => do
    return .integer (c.rightSide (← x.number))
  | isSquare c value => do
    return .truth (← value.isSquare c)
  | evenRoot c value => do
    return .integer (← value.evenRoot c : Nat)
  | hashToPoint c message => do
    return .point (.ofPoint c (← c.hashToPoint (← message.message)))
  | mul c point scalar => do
    return .value (← Datum.multiple c point scalar)
  | baseMul c scalar => do
    return .value (← Datum.multiple c (.base c) scalar)
  | add c p q => do
    return .value (← Datum.sum c p q)
  | createCipher curve => do
    let c ← Curve.find curve
    return .cipher c (← Cipher.create c)
  | restoreCipher curve key => do
    let c ← Curve.find curve
    return .cipher c (← Cipher.restore c key)
  | cipherOfKey c key => do
    return .cipher c (← Cipher.ofDatum c key)
  | encrypt _ cipher plaintext => return .bytes (← cipher.encrypt plaintext)
  | reEncrypt _ cipher ciphertext => return .bytes (← cipher.reEncrypt ciphertext)
  | decrypt _ cipher ciphertext => return .bytes (← cipher.decrypt ciphertext)
  | reEncryptPair _ cipher ciphertext => return pairOf (← cipher.reEncryptPair ciphertext)
  | keyBytes _ cipher => return .bytes (← cipher.keyBytes)
  | createElGamal curve => do
    let c ← Curve.find curve
    return .elGamal c (← ElGamal.create c)
  | elGamalOfPublic curve publicKey => do
    let c ← Curve.find curve
    return .elGamal c (← ElGamal.ofPublic c publicKey)
  | elGamalOfPair curve publicKey privateKey => do
    let c ← Curve.find curve
    return .elGamal c (← ElGamal.ofPair c publicKey privateKey)
  | elGamalEncrypt _ keys message => return pairOf (← keys.encrypt message)
  | elGamalEncryptIdentity _ keys => return pairOf (← keys.encryptIdentity)
  | elGamalDecrypt _ keys ciphertext => return .bytes (← keys.decrypt ciphertext)
  | elGamalPublicBytes _ keys => return .bytes (← keys.publicBytes)
  | elGamalPrivateBytes _ keys => return .bytes (← keys.privateBytes)
  | fixedPower fixed exponent => return .integer (← fixed.power exponent : Nat)

end Call

end CurveLock

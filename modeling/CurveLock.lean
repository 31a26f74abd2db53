import CurveLock.Bytes
import CurveLock.Number.Power
import CurveLock.Number.Inverse
import CurveLock.Number.SquareRoot
import CurveLock.Number.Shortest
import CurveLock.Number.Scaled
import CurveLock.Number.QuadraticSymbol
import CurveLock.Number.Decimal
import CurveLock.Hash.Sha256
import CurveLock.Curve.Point
import CurveLock.Curve.Named
import CurveLock.Curve.Weighted
import CurveLock.Text.Numeral
import CurveLock.Text.Quoted
import CurveLock.Text.Template
import CurveLock.Datum
import CurveLock.Failure
import CurveLock.Datum.Order
import CurveLock.Datum.Reading
import CurveLock.Datum.Template
import CurveLock.Datum.Operators
import CurveLock.Datum.Multiplier
import CurveLock.Scratch
import CurveLock.Arithmetic
import CurveLock.Datum.Modular
import CurveLock.Hash.Oracle
import CurveLock.Curve.Lookup
import CurveLock.Curve.Group
import CurveLock.Datum.Group
import CurveLock.Cipher
import CurveLock.ElGamal
import CurveLock.FixedBase.Basic
import CurveLock.Call
import CurveLock.Proofs.Number.Power
import CurveLock.Proofs.Number.Inverse
import CurveLock.Proofs.Number.Primality
import CurveLock.Proofs.Number.SquareRoot
import CurveLock.Proofs.Curve.Primes
import CurveLock.Proofs.Curve.GroupLaw
import CurveLock.Proofs.Curve.Rootless
import CurveLock.Proofs.Curve.Weighted
import CurveLock.Proofs.Curve.Order
import CurveLock.Proofs.Curve.Subtraction
import CurveLock.Proofs.Bytes
import CurveLock.Proofs.Curve.Compressed
import CurveLock.Proofs.Hash.Oracle
import CurveLock.Proofs.Curve.HashToPoint
import CurveLock.Proofs.Datum
import CurveLock.Proofs.Scratch
import CurveLock.Proofs.Cipher.Keys
import CurveLock.Proofs.Cipher.Steps
import CurveLock.Proofs.Cipher.Layers
import CurveLock.Proofs.Cipher.Collision
import CurveLock.Proofs.Cipher.Matching
import CurveLock.Proofs.Cipher.Transitive
import CurveLock.Proofs.Curve.FirstHit
import CurveLock.Proofs.Curve.Pairs
import CurveLock.Proofs.Curve.Scalar
import CurveLock.Proofs.ElGamal.Keys
import CurveLock.Proofs.ElGamal.Steps
import CurveLock.Proofs.ElGamal.Ciphertexts
import CurveLock.Proofs.ElGamal.ReEncryption
import CurveLock.Proofs.Acceptance
import CurveLock.Proofs.FixedBase.Table
import CurveLock.Proofs.FixedBase.Agreement
import CurveLock.Proofs.Curve.StoredKey
import CurveLock.Proofs.Steady
import CurveLock.Proofs.Cipher.Storage
import CurveLock.Proofs.ElGamal.Storage
import CurveLock.Proofs.Refusal.Rules
import CurveLock.Proofs.Refusal.Values
import CurveLock.Proofs.Refusal.Operations
import CurveLock.Proofs.Refusal.Calls
import CurveLock.Proofs.Refusal.Reports
import CurveLock.Proofs.Text.Numeral
import CurveLock.Proofs.FixedBase.Default
import CurveLock.Proofs.Foreign
import CurveLock.Proofs.Number.Spelled
import CurveLock.Proofs.Bits
import CurveLock.Proofs.Hash.Expansion
import CurveLock.Proofs.Hash.Separation
import CurveLock.Proofs.Hash.Frequency
import CurveLock.Proofs.Curve.Laws
import CurveLock.Proofs.Number.Residue
import CurveLock.Proofs.Arithmetic
import CurveLock.Proofs.Encoding
import CurveLock.Proofs.Opposite
import CurveLock.Proofs.FixedBase.Cost
import CurveLock.Proofs.Text.Blank
import CurveLock.Proofs.Text.Grammar
import CurveLock.Proofs.FixedBase.Environment
import CurveLock.Proofs.FixedBase.Rows
import CurveLock.Proofs.Number.QuadraticSymbol
import CurveLock.Proofs.Curve.SquareRoots

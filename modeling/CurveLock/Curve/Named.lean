import CurveLock.Curve.Point

/-!
# The supported curves

Six named curves of prime order (`Curve`), each with its domain parameters
(`Curve.parameters`): the field, the equation, the base point, its order, the name and number under
which it is known, and one non-square of the field, which taking square roots needs.
-/

namespace CurveLock

/-- The supported curves, in the order of the registry. -/
inductive Curve where
  | secp192r1
  | secp224r1
  | secp256r1
  | secp384r1
  | secp521r1
  | secp256k1
  deriving DecidableEq, Repr

/-- What a named curve consists of. -/
structure DomainParameters where
  /-- The name by which the library calls the curve. -/
  name : String
  /-- The number under which the curve is registered. -/
  number : Nat
  /-- The short name that goes with the number. -/
  shortName : String
  /-- The field and the equation. -/
  equation : Weierstrass
  /-- The base point, which generates the group. -/
  generator : Point
  /-- The number of points, a prime. -/
  order : Nat
  /-- An element of the field that is no square. -/
  nonSquare : Nat

namespace Curve

/-- Every supported curve, in the order of the registry. -/
def all : List Curve := [.secp192r1, .secp224r1, .secp256r1, .secp384r1, .secp521r1, .secp256k1]

/-- The domain parameters of a curve. -/
def parameters : Curve → DomainParameters
  | .secp192r1 =>
    { name := "secp192r1"
      number := 409
      shortName := "X9_62_prime192v1"
      equation :=
        { p := 0xfffffffffffffffffffffffffffffffeffffffffffffffff
          a := 0xfffffffffffffffffffffffffffffffefffffffffffffffc
          b := 0x64210519e59c80e70fa7e9ab72243049feb8deecc146b9b1 }
      generator := .affine
        0x188da80eb03090f67cbf20eb43a18800f4ff0afd82ff1012
        0x7192b95ffc8da78631011ed6b24cdd573f977a11e794811
      order := 0xffffffffffffffffffffffff99def836146bc9b1b4d22831
      nonSquare := 0xfffffffffffffffffffffffffffffffefffffffffffffffe }
  | .secp224r1 =>
    { name := "secp224r1"
      number := 713
      shortName := "secp224r1"
      equation :=
        { p := 0xffffffffffffffffffffffffffffffff000000000000000000000001
          a := 0xfffffffffffffffffffffffffffffffefffffffffffffffffffffffe
          b := 0xb4050a850c04b3abf54132565044b0b7d7bfd8ba270b39432355ffb4 }
      generator := .affine
        0xb70e0cbd6bb4bf7f321390b94a03c1d356c21122343280d6115c1d21
        0xbd376388b5f723fb4c22dfe6cd4375a05a07476444d5819985007e34
      order := 0xffffffffffffffffffffffffffff16a2e0b8f03e13dd29455c5c2a3d
      nonSquare := 11 }
  | .secp256r1 =>
    { name := "secp256r1"
      number := 415
      shortName := "X9_62_prime256v1"
      equation :=
        { p := 0xffffffff00000001000000000000000000000000ffffffffffffffffffffffff
          a := 0xffffffff00000001000000000000000000000000fffffffffffffffffffffffc
          b := 0x5ac635d8aa3a93e7b3ebbd55769886bc651d06b0cc53b0f63bce3c3e27d2604b }
      generator := .affine
        0x6b17d1f2e12c4247f8bce6e563a440f277037d812deb33a0f4a13945d898c296
        0x4fe342e2fe1a7f9b8ee7eb4a7c0f9e162bce33576b315ececbb6406837bf51f5
      order := 0xffffffff00000000ffffffffffffffffbce6faada7179e84f3b9cac2fc632551
      nonSquare := 0xffffffff00000001000000000000000000000000fffffffffffffffffffffffe }
  | .secp384r1 =>
    { name := "secp384r1"
      number := 715
      shortName := "secp384r1"
      equation :=
        { p := 0xfffffffffffffffffffffffffffffffffffffffffffffffffffffffffffffffeffffffff0000000000000000ffffffff
          a := 0xfffffffffffffffffffffffffffffffffffffffffffffffffffffffffffffffeffffffff0000000000000000fffffffc
          b := 0xb3312fa7e23ee7e4988e056be3f82d19181d9c6efe8141120314088f5013875ac656398d8a2ed19d2a85c8edd3ec2aef }
      generator := .affine
        0xaa87ca22be8b05378eb1c71ef320ad746e1d3b628ba79b9859f741e082542a385502f25dbf55296c3a545e3872760ab7
        0x3617de4a96262c6f5d9e98bf9292dc29f8f41dbd289a147ce9da3113b5f0b8c00a60b1ce1d7e819d7a431d7c90ea0e5f
      order := 0xffffffffffffffffffffffffffffffffffffffffffffffffc7634d81f4372ddf581a0db248b0a77aecec196accc52973
      nonSquare := 0xfffffffffffffffffffffffffffffffffffffffffffffffffffffffffffffffeffffffff0000000000000000fffffffe }
  | .secp521r1 =>
    { name := "secp521r1"
      number := 716
      shortName := "secp521r1"
      equation :=
        { p := 0x1ffffffffffffffffffffffffffffffffffffffffffffffffffffffffffffffffffffffffffffffffffffffffffffffffffffffffffffffffffffffffffffffffff
          a := 0x1fffffffffffffffffffffffffffffffffffffffffffffffffffffffffffffffffffffffffffffffffffffffffffffffffffffffffffffffffffffffffffffffffc
          b := 0x51953eb9618e1c9a1f929a21a0b68540eea2da725b99b315f3b8b489918ef109e156193951ec7e937b1652c0bd3bb1bf073573df883d2c34f1ef451fd46b503f00 }
      generator := .affine
        0xc6858e06b70404e9cd9e3ecb662395b4429c648139053fb521f828af606b4d3dbaa14b5e77efe75928fe1dc127a2ffa8de3348b3c1856a429bf97e7e31c2e5bd66
        0x11839296a789a3bc0045c8a5fb42c7d1bd998f54449579b446817afbd17273e662c97ee72995ef42640c550b9013fad0761353c7086a272c24088be94769fd16650
      order := 0x1fffffffffffffffffffffffffffffffffffffffffffffffffffffffffffffffffa51868783bf2f966b7fcc0148f709a5d03bb5c9b8899c47aebb6fb71e91386409
      nonSquare := 0x1fffffffffffffffffffffffffffffffffffffffffffffffffffffffffffffffffffffffffffffffffffffffffffffffffffffffffffffffffffffffffffffffffe }
  | .secp256k1 =>
    { name := "secp256k1"
      number := 714
      shortName := "secp256k1"
      equation :=
        { p := 0xfffffffffffffffffffffffffffffffffffffffffffffffffffffffefffffc2f
          a := 0
          b := 7 }
      generator := .affine
        0x79be667ef9dcbbac55a06295ce870b07029bfcdb2dce28d959f2815b16f81798
        0x483ada7726a3c4655da4fbfc0e1108a8fd17b448a68554199c47d08ffb10d4b8
      order := 0xfffffffffffffffffffffffffffffffebaaedce6af48a03bbfd25e8cd0364141
      nonSquare := 0xfffffffffffffffffffffffffffffffffffffffffffffffffffffffefffffc2e }

variable (c : Curve)

/-! ### Parts of the domain parameters -/

/-- The name by which the library calls the curve. -/
def name : String := c.parameters.name

/-- The number under which the curve is registered. -/
def number : Nat := c.parameters.number

/-- The field and the equation. -/
def equation : Weierstrass := c.parameters.equation

/-- The prime of the field. -/
def prime : Nat := c.equation.p

/-- The base point. -/
def generator : Point := c.parameters.generator

/-- The number of points, a prime. -/
def order : Nat := c.parameters.order

/-- The width in bytes of a coordinate. -/
def fieldWidth : Nat := byteLength c.prime

/-- The width in bytes of a scalar. -/
def scalarWidth : Nat := byteLength c.order

/-! ### Group operations -/

/-- The sum of two points of the curve. -/
def add (P Q : Point) : Point := c.equation.add P Q

/-- The opposite of a point of the curve. -/
def neg (P : Point) : Point := c.equation.neg P

/-- The multiple `k · P`; only `k` modulo the order matters. -/
def smul (k : Int) (P : Point) : Point := c.equation.multiple (k % c.order).toNat P

/-! ### Looking a curve up by name -/

/-- Every name under which a curve is found, in lower case. -/
def ofName? : String → Option Curve
  | "secp192r1" | "prime192v1" | "p-192" | "nist192p" => some .secp192r1
  | "secp224r1" | "p-224" | "nist224p" => some .secp224r1
  | "secp256r1" | "prime256v1" | "p-256" | "nist256p" => some .secp256r1
  | "secp384r1" | "p-384" | "nist384p" => some .secp384r1
  | "secp521r1" | "p-521" | "nist521p" => some .secp521r1
  | "secp256k1" => some .secp256k1
  | _ => none

/-- The curve registered under a number. -/
def ofNumber? (n : Int) : Option Curve := all.find? fun c => (c.number : Int) = n

end Curve

end CurveLock

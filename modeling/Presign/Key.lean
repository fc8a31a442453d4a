import Presign.Curve
import Presign.Pem
import Presign.Rsa.Generation
import Presign.Signature.Algorithm

/-!
# Keys

A key is an RSA key or a key of a supported curve.  A private key of a curve
is a scalar between zero and the order, and a public one is a point of the
curve.

Keys are read from files in two steps.  The first reads the outer sequence and
the algorithm identifier with the tolerant reader, which names its faults and
the algorithms that are not supported.  The second reads the whole file
strictly and forms the key, and its failure carries no detail.
-/

namespace Presign

/-! ## Errors -/

/-- Why octets are no key. -/
inductive KeyError where
  /-- An element cannot be read. -/
  | element (error : Der.Error)
  /-- The RSA key is not well formed or not acceptable. -/
  | rsa
  /-- The curve key is not well formed or not acceptable. -/
  | ec
  /-- The algorithm of a curve key names no curve. -/
  | noNamedCurve
  /-- The label does not announce this kind of key. -/
  | invalidLabel (label : String)
  /-- The algorithm is not supported. -/
  | unsupportedAlgorithm (description : String)
  /-- The text is no envelope. -/
  | pem (error : PemError)
deriving DecidableEq, Repr

/-- The text of a key error. -/
def KeyError.message : KeyError → String
  | .element error => error.message
  | .rsa => "RSA error: "
  | .ec => "EC error: "
  | .noNamedCurve => "EC error: EC algorithm identifier without named curve"
  | .invalidLabel label => "invalid PEM label: " ++ label
  | .unsupportedAlgorithm description => "unsupported algorithm: " ++ description
  | .pem error => "invalid PEM provided: " ++ error.message

/-! ## Types -/

/-- A private key. -/
inductive PrivateKey where
  | rsa (key : Rsa.PrivateKey)
  | ec (curve : Curve) (scalar : Nat) (range : 0 < scalar ∧ scalar < curve.order)

/-- A public key. -/
inductive PublicKey where
  | rsa (key : Rsa.PublicKey)
  | ec (curve : Curve) (x y : Nat)
deriving DecidableEq

namespace PrivateKey

/-- The key type. -/
def keyType : PrivateKey → KeyType
  | .rsa _ => .rsa
  | .ec .. => .ec

/-- The curve, for a key of a curve. -/
def curve? : PrivateKey → Option Curve
  | .rsa _ => none
  | .ec c .. => some c

/-- The public half.  The multiple of the generator is not the point at
infinity, since the scalar is below the order. -/
def toPublic : PrivateKey → PublicKey
  | .rsa k => .rsa k.toPublic
  | .ec c scalar _ =>
    match c.multiply scalar c.generator with
    | .affine x y => .ec c x y
    | .infinity => .ec c 0 0

end PrivateKey

namespace PublicKey

/-- The key type. -/
def keyType : PublicKey → KeyType
  | .rsa _ => .rsa
  | .ec .. => .ec

/-- The curve, for a key of a curve. -/
def curve? : PublicKey → Option Curve
  | .rsa _ => none
  | .ec c .. => some c

end PublicKey

/-! ## Outer reading -/

/-- What the outer elements of a key file say the key is. -/
inductive KeyKind where
  | rsa
  | ec (curve : Curve)

/-- The curve that the parameters of an algorithm name. -/
def curveOfParameters (a : AlgorithmIdentifier) : Except KeyError Curve := do
  let some parameters := a.parameters | .error .noNamedCurve
  let oid ← (Der.readOid "EC named curve" parameters).mapError .element
  match Curve.ofOid? oid with
  | some c => .ok c
  | none => .error (.unsupportedAlgorithm ("EC curve with oid \x60" ++ oid.text ++ "\x60"))

/-- The kind of key that the element at a place of the outer sequence
announces. -/
def kindOfFile (name missing half : String) (place : Nat) (bs : Octets) :
    Except KeyError KeyKind := do
  let elements ← (Der.readSequence name bs).mapError .element
  let some algorithm := elements[place]?
    | .error (.element (.invalid name (.missing missing)))
  let algorithm ← (AlgorithmIdentifier.ofDer algorithm).mapError .element
  if algorithm.algorithm = Oid.rsaEncryption then return .rsa
  else if algorithm.algorithm = Oid.ecPublicKey then return .ec (← curveOfParameters algorithm)
  else
    .error (.unsupportedAlgorithm
      (half ++ " key with oid \x60" ++ algorithm.algorithm.text ++ "\x60"))

/-- The encoded algorithm identifier that a key of a kind has in its file. -/
def KeyKind.algorithm : KeyKind → Octets
  | .rsa => (AlgorithmIdentifier.withNull Oid.rsaEncryption).toDer
  | .ec c => (AlgorithmIdentifier.mk Oid.ecPublicKey (some (Der.oid c.oid))).toDer

/-- Takes the encoded algorithm identifier off the front of octets. -/
def KeyKind.takeAlgorithm? (kind : KeyKind) (bs : Octets) : Option Octets :=
  if kind.algorithm.isPrefixOf bs then some (bs.drop kind.algorithm.length) else none

/-! ## Public keys -/

namespace PublicKey

/-- Strictly reads a file with a public key of a kind. -/
def ofFile? (kind : KeyKind) (bs : Octets) : Option PublicKey := do
  let inner ← Der.Strict.only? Der.Tag.sequence bs
  let (key, rest) ← Der.Strict.bitString? (← kind.takeAlgorithm? inner)
  if !rest.isEmpty then none
  match kind with
  | .rsa => return .rsa (← Rsa.PublicKey.ofDer? key)
  | .ec c =>
    let (x, y) ← c.readPoint? key
    return .ec c x y

/-- The failure of strict reading, by kind. -/
def strictError : KeyKind → KeyError
  | .rsa => .rsa
  | .ec _ => .ec

/-- Reads the octets of a public key file. -/
def ofDer (bs : Octets) : Except KeyError PublicKey := do
  let kind ← kindOfFile "subject public key info" "algorithm" "public" 0 bs
  match ofFile? kind bs with
  | some k => .ok k
  | none => .error (strictError kind)

/-- Reads an envelope that announces a public key. -/
def ofPem (p : Pem) : Except KeyError PublicKey :=
  if p.label = "PUBLIC KEY" then ofDer p.data else .error (.invalidLabel p.label)

/-- Reads the text of an envelope. -/
def ofPemText (text : Octets) : Except KeyError PublicKey := do
  ofPem (← (Pem.parse text).mapError .pem)

end PublicKey

/-! ## Private keys -/

namespace PrivateKey

/-- The private key of a curve with a scalar. -/
def ofScalar? (c : Curve) (scalar : Nat) : Option PrivateKey :=
  if h : 0 < scalar ∧ scalar < c.order then some (.ec c scalar h) else none

/-- Reads an optional field with an explicit constructed context tag, which
holds one element of a given tag.  Gives its content, and what follows. -/
def explicitField? (number tag : UInt8) (bs : Octets) : Option (Option Octets × Octets) := do
  let (found, rest) ← Der.Strict.skipTo? number bs
  if !found then return (none, rest)
  let (inner, rest) ← Der.Strict.take? (Der.Tag.context number) rest
  return (some (← Der.Strict.only? tag inner), rest)

/-- Whether the bits in a key file are the public half of a key of a curve. -/
def isPublicHalf (c : Curve) (key : PrivateKey) (bits : Octets) : Bool :=
  match key.toPublic, Der.Strict.wholeOctets? bits with
  | .ec _ x y, some bs => bs == c.writePoint x y || bs == c.writeCompressed x y
  | _, _ => false

/-- The least number of octets that write a scalar. -/
def minScalarSize : Nat := 24

/-- Strictly reads the sequence that holds the scalar of a curve key.  The
scalar may be written without some leading zeros, but not in fewer than
`minScalarSize` octets.  If the sequence holds the public half too, that has to
belong to the scalar.  If it names a curve, the name has to be well formed, but
it need not be that of the curve. -/
def ofEcDer? (c : Curve) (bs : Octets) : Option PrivateKey := do
  let inner ← Der.Strict.only? Der.Tag.sequence bs
  let (version, rest) ← Der.Strict.unsigned? inner
  if version ≠ 1 then none
  let (scalar, rest) ← Der.Strict.take? Der.Tag.octetString rest
  let (named, rest) ← explicitField? 0 Der.Tag.oid rest
  let (point, rest) ← explicitField? 1 Der.Tag.bitString rest
  if !rest.isEmpty ∨ scalar.length < minScalarSize ∨ c.fieldSize < scalar.length then none
  let key ← ofScalar? c scalar.toNat
  if named.all Der.Strict.isOid && point.all (isPublicHalf c key) then return key else none

/-- Whether octets are further fields, each an element inside an explicit
constructed context tag. -/
def areFields (bs : Octets) : Bool :=
  if bs.isEmpty then true
  else
    match Der.Strict.any? bs with
    | none => false
    | some s =>
      if s.tag.toNat / 32 = 5 ∧ (Der.Strict.any? s.content).any (·.rest.isEmpty) then
        if _shorter : s.rest.length < bs.length then areFields s.rest else false
      else false
termination_by bs.length

/-- Strictly reads a file with a private key of a kind.  Version 1 of the file
goes with a public key in it, and version 0 without. -/
def ofFile? (kind : KeyKind) (bs : Octets) : Option PrivateKey := do
  let inner ← Der.Strict.only? Der.Tag.sequence bs
  let (version, rest) ← Der.Strict.unsigned? inner
  if 1 < version then none
  let (key, rest) ← Der.Strict.take? Der.Tag.octetString (← kind.takeAlgorithm? rest)
  let (hasPublic, rest) ← Der.Strict.skipTo? 1 rest
  let rest ←
    if hasPublic then do
      let (bits, rest) ← Der.Strict.take? 0x81 rest
      let _ ← Der.Strict.wholeOctets? bits
      pure rest
    else pure rest
  if (version == 1) != hasPublic ∨ !areFields rest then none
  match kind with
  | .rsa => return .rsa (← Rsa.PrivateKey.ofDer? key)
  | .ec c => ofEcDer? c key

/-- Reads the octets of a private key file that names its algorithm. -/
def ofDer (bs : Octets) : Except KeyError PrivateKey := do
  let kind ← kindOfFile "private key info" "private key algorithm" "private" 1 bs
  match ofFile? kind bs with
  | some k => .ok k
  | none => .error (PublicKey.strictError kind)

/-- Reads the octets of a file that is an RSA private key and nothing else. -/
def ofRsaDer (bs : Octets) : Except KeyError PrivateKey :=
  match Rsa.PrivateKey.ofDer? bs with
  | some k => .ok (.rsa k)
  | none => .error .rsa

/-- Reads an envelope that announces a private key. -/
def ofPem (p : Pem) : Except KeyError PrivateKey :=
  if p.label = "PRIVATE KEY" then ofDer p.data
  else if p.label = "RSA PRIVATE KEY" then ofRsaDer p.data
  else .error (.invalidLabel p.label)

/-- Reads the text of an envelope. -/
def ofPemText (text : Octets) : Except KeyError PrivateKey := do
  ofPem (← (Pem.parse text).mapError .pem)

/-! ## Generation -/

/-- An RSA key of a given number of bits, from a seed. -/
def generateRsa (bits : Nat) (seed : Octets) : Except KeyError PrivateKey :=
  match Rsa.generate? bits seed with
  | some k => .ok (.rsa k)
  | none => .error .rsa

/-- A key of a curve from a seed.  The scalar is the stream of the seed,
brought into range. -/
def generateEc (c : Curve) (seed : Octets) : PrivateKey :=
  .ec c ((Digest.stream seed 0 (c.fieldSize + 8)).toNat % (c.order - 1) + 1) (by
    have positive : 0 < c.order - 1 := by cases c <;> decide
    have := Nat.mod_lt (Digest.stream seed 0 (c.fieldSize + 8)).toNat positive
    omega)

end PrivateKey

end Presign

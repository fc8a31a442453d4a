import Presign.Ecdsa.Sign
import Presign.Key
import Presign.Rsa.Operation
import Presign.Rsa.Padding

/-!
# Signing with keys

The operations that make and check signature values.  RSA works on blocks that
the caller has padded, or pads a `DigestInfo` itself.  ECDSA works on digests,
so that the caller controls the hashing.  A key of the wrong type is refused
before anything is computed.
-/

namespace Presign

/-- An operation, as errors name it. -/
inductive Operation where
  | rsaRawSign
  | rsaRawVerify
  | rsaSign
  | ecdsaSign
  | ecdsaVerify
deriving DecidableEq, Repr

/-- The name of an operation. -/
def Operation.text : Operation → String
  | .rsaRawSign => "RSA raw sign"
  | .rsaRawVerify => "RSA raw verify"
  | .rsaSign => "RSA PKCS#1 v1.5 sign"
  | .ecdsaSign => "ECDSA sign"
  | .ecdsaVerify => "ECDSA verify"

/-- What is wrong with the input of an operation. -/
inductive InputFault where
  /-- The number is not below the modulus. -/
  | outOfRange
  /-- The signature does not have the size of the modulus. -/
  | size (signature modulus : Nat)
  /-- The algorithm is not for keys of curves. -/
  | notEcdsa (algorithm : SignatureAlgorithm)
deriving DecidableEq

/-- The text of an input fault. -/
def InputFault.message : InputFault → String
  | .outOfRange => "representative out of range of the modulus"
  | .size signature modulus => s!"signature is {signature} bytes, modulus is {modulus} bytes"
  | .notEcdsa algorithm => algorithm.uri ++ " is not an ECDSA algorithm"

/-- Why an operation failed. -/
inductive SigningError where
  /-- The RSA operation gave no result. -/
  | rsa
  /-- The ECDSA operation gave no result. -/
  | ec
  /-- The operation is for keys of another type. -/
  | keyType (operation : Operation) (expected actual : KeyType)
  /-- The input was refused. -/
  | input (operation : Operation) (fault : InputFault)
  /-- The padded block is malformed. -/
  | padding (error : Rsa.PaddingError)
deriving DecidableEq

/-- The text of a signing error. -/
def SigningError.message : SigningError → String
  | .rsa => "RSA error: "
  | .ec => "EC error: "
  | .keyType operation expected actual =>
    operation.text ++ " requires a " ++ expected.text ++ " key, got a " ++ actual.text ++ " key"
  | .input operation fault => "invalid input for " ++ operation.text ++ ": " ++ fault.message
  | .padding error => error.message

/-! ## RSA -/

namespace PrivateKey

/-- The RSA key, or the error that an operation needs one. -/
def asRsa (operation : Operation) : PrivateKey → Except SigningError Rsa.PrivateKey
  | .rsa k => .ok k
  | .ec .. => .error (.keyType operation .rsa .ec)

/-- The private operation on a padded block. -/
def rsaRawSign (key : PrivateKey) (data : Octets) : Except SigningError Octets := do
  let k ← key.asRsa .rsaRawSign
  if k.modulus ≤ data.toNat then .error (.input .rsaRawSign .outOfRange)
  else
    match k.power? data.toNat with
    | some s => .ok (Octets.ofNatWidth k.size s)
    | none => .error .rsa

/-- The signature that carries an encoded `DigestInfo`. -/
def rsaSign (key : PrivateKey) (value : Octets) : Except SigningError Octets := do
  let k ← key.asRsa .rsaSign
  match Rsa.pad? k.size value with
  | none => .error .rsa
  | some block =>
    match k.power? block.toNat with
    | some s => .ok (Octets.ofNatWidth k.size s)
    | none => .error .rsa

end PrivateKey

namespace PublicKey

/-- The RSA key, or the error that an operation needs one. -/
def asRsa (operation : Operation) : PublicKey → Except SigningError Rsa.PublicKey
  | .rsa k => .ok k
  | .ec .. => .error (.keyType operation .rsa .ec)

/-- The public operation: the padded block that a signature carries. -/
def rsaRawVerify (key : PublicKey) (signature : Octets) : Except SigningError Octets := do
  let k ← key.asRsa .rsaRawVerify
  if signature.length ≠ k.size then
    .error (.input .rsaRawVerify (.size signature.length k.size))
  else if k.modulus ≤ signature.toNat then .error (.input .rsaRawVerify .outOfRange)
  else .ok (Octets.ofNatWidth k.size (k.power signature.toNat))

/-- The encoded `DigestInfo` that a signature carries. -/
def rsaRecover (key : PublicKey) (signature : Octets) : Except SigningError Octets := do
  (Rsa.unpad (← key.rsaRawVerify signature)).mapError .padding

/-- Whether a signature is one over a digest made by a digest method. -/
def rsaVerify (key : PublicKey) (signature digest : Octets) (method : DigestMethod) :
    Except SigningError Bool := do
  (Rsa.DigestInfo.verify (← key.rsaRecover signature) digest method).mapError .padding

end PublicKey

/-! ## ECDSA -/

namespace PrivateKey

/-- The signature over a digest. -/
def ecdsaSignDigest (key : PrivateKey) (digest : Octets) : Except SigningError Ecdsa.Value :=
  match key with
  | .rsa _ => .error (.keyType .ecdsaSign .ec .rsa)
  | .ec c scalar _ =>
    match Ecdsa.sign? c scalar digest with
    | some v => .ok v
    | none => .error .ec

/-- The signature over a message, hashed as an algorithm says. -/
def ecdsaSign (key : PrivateKey) (message : Octets) (algorithm : SignatureAlgorithm) :
    Except SigningError Ecdsa.Value :=
  if algorithm.keyType ≠ .ec then .error (.input .ecdsaSign (.notEcdsa algorithm))
  else key.ecdsaSignDigest (algorithm.digest.digest message)

end PrivateKey

namespace PublicKey

/-- Whether a signature is one over a digest. -/
def ecdsaVerify (key : PublicKey) (digest : Octets) (v : Ecdsa.Value) :
    Except SigningError Bool :=
  match key with
  | .rsa _ => .error (.keyType .ecdsaVerify .ec .rsa)
  | .ec c x y => .ok (Ecdsa.verify c (.affine x y) digest v)

end PublicKey

end Presign

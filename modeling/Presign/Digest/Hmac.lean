import Presign.Digest.Method

/-!
# Keyed digests

A digest of a message that only the holder of a key can make: the message is
hashed behind the key, and the result again behind the key.
-/

namespace Presign.Digest

/-- The block size of a digest method in octets. -/
def blockSize : DigestMethod → Nat
  | .sha384 | .sha512 => 128
  | _ => 64

/-- A key, mixed with one octet throughout a block. -/
def keyBlock (m : DigestMethod) (mask : UInt8) (key : Octets) : Octets :=
  let key := if key.length > blockSize m then m.digest key else key
  (key ++ List.replicate (blockSize m - key.length) 0).map (· ^^^ mask)

/-- The keyed digest of a message. -/
def hmac (m : DigestMethod) (key message : Octets) : Octets :=
  m.digest (keyBlock m 0x5C key ++ m.digest (keyBlock m 0x36 key ++ message))

end Presign.Digest

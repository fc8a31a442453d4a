import Presign.Curve
import Presign.Digest.Hmac

/-!
# Deterministic nonces

ECDSA needs a secret number for every signature.  It is drawn from a stream
that the private key and the digest determine, so that equal inputs give equal
signatures.  The digest enters as it is and is not reduced.

A draw outside the range is dropped.  This happens about once in 2³² draws at
most, so the draws are counted and the search ends after `maxDraws`.
-/

namespace Presign.Ecdsa

/-- The digest method of the stream for a curve. -/
def streamMethod : Curve → DigestMethod
  | .p256 => .sha256
  | .p384 => .sha384

/-- The state of a stream. -/
structure Stream where
  /-- The key of the next keyed digest. -/
  key : Octets
  /-- The last output. -/
  value : Octets

namespace Stream

/-- Mixes data into the state behind a separator. -/
def mix (m : DigestMethod) (separator : UInt8) (data : Octets) (s : Stream) : Stream :=
  let key := Digest.hmac m s.key (s.value ++ separator :: data)
  ⟨key, Digest.hmac m key s.value⟩

/-- The stream for a secret and a digest. -/
def start (m : DigestMethod) (secret digest : Octets) : Stream :=
  let blank : Stream := ⟨List.replicate m.size 0, List.replicate m.size 1⟩
  ((blank.mix m 0 (secret ++ digest)).mix m 1 (secret ++ digest))

/-- The next output, and the state after it. -/
def draw (m : DigestMethod) (s : Stream) : Octets × Stream :=
  let value := Digest.hmac m s.key s.value
  (value, (Stream.mk s.key value).mix m 0 [])

end Stream

/-- The number of draws after which a search ends. -/
def maxDraws : Nat := 64

/-- The first draw in range among `count` draws. -/
def search? (m : DigestMethod) (order : Nat) : (count : Nat) → Stream → Option Nat
  | 0, _ => none
  | count + 1, s =>
    let (value, next) := s.draw m
    let k := value.toNat
    if 0 < k ∧ k < order then some k else search? m order count next

/-- The nonce for a secret scalar and a digest of the field size. -/
def nonce? (c : Curve) (scalar : Nat) (digest : Octets) : Option Nat :=
  let m := streamMethod c
  search? m c.order maxDraws (.start m (Octets.ofNatWidth c.fieldSize scalar) digest)

end Presign.Ecdsa

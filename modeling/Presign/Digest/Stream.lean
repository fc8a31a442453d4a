import Presign.Digest.Method

/-!
# Streams of octets

A seed stands for the randomness of a caller.  What is drawn from it are the
digests of the seed, a place and a counter, so that draws at two places have
nothing in common.
-/

namespace Presign.Digest

/-- The first `size` octets of the stream of a seed at a place. -/
def stream (seed : Octets) (place size : Nat) : Octets :=
  ((List.range (size / 32 + 1)).flatMap fun i =>
    DigestMethod.sha256.digest
      (seed ++ Octets.ofNatWidth 8 place ++ Octets.ofNatWidth 8 i)).take size

end Presign.Digest

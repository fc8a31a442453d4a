import Presign.Octets

/-!
# Arithmetic modulo a number

Powers by repeated squaring, inverses by Euclid's algorithm, numbers from their
remainders, and a test that composite numbers rarely pass.  All values are kept
below the modulus.
-/

namespace Presign.Modular

/-- The power `b ^ e` modulo `m`. -/
def pow (b e m : Nat) : Nat :=
  if e = 0 then 1 % m
  else
    let h := pow b (e / 2) m
    let s := h * h % m
    if e % 2 = 1 then s * b % m else s
termination_by e
decreasing_by omega

/-- The result is that of taking the power first. -/
theorem pow_eq (b e m : Nat) : pow b e m = Nat.pow b e % m := by
  induction e using Nat.strongRecOn with
  | ind e ih =>
    rw [pow]
    split
    · rename_i h
      rw [h]
      rfl
    · rename_i h
      have half : pow b (e / 2) m = Nat.pow b (e / 2) % m := ih (e / 2) (by omega)
      have add : Nat.pow b (e / 2 + e / 2) = Nat.pow b (e / 2) * Nat.pow b (e / 2) :=
        Nat.pow_add b (e / 2) (e / 2)
      have square : pow b (e / 2) m * pow b (e / 2) m % m = Nat.pow b (e / 2 + e / 2) % m := by
        rw [half, ← Nat.mul_mod, add]
      split
      · have odd : e = e / 2 + e / 2 + 1 := by omega
        have next : Nat.pow b (e / 2 + e / 2 + 1) = Nat.pow b (e / 2 + e / 2) * b := rfl
        simp only [square]
        rw [Nat.mod_mul_mod, ← next, ← odd]
      · have even : e / 2 + e / 2 = e := by omega
        simp only [square]
        rw [even]

/-- A step of Euclid's algorithm on `r` and `next`.  Modulo `m`, the first is
`s` times the number to invert and the second is `t` times it. -/
def euclid (m r s next t : Nat) : Option Nat :=
  if next = 0 then if r = 1 then some s else none
  else euclid m next t (r % next) ((s + (m - r / next * t % m)) % m)
termination_by next
decreasing_by exact Nat.mod_lt _ (by omega)

/-- The inverse of `a` modulo `m`, if there is one. -/
def inverse? (a m : Nat) : Option Nat := euclid m m 0 (a % m) 1

/-- The number below `m * n` that is `a` modulo `m` and `b` modulo `n`, for `b`
below `n`, if `m` and `n` have no common divisor. -/
def join? (a m b n : Nat) : Option Nat :=
  (inverse? n m).map fun i => b + n * ((a + (m - b % m)) * i % m)

/-! ## Primes -/

/-- The primes below 100, which small factors and witnesses are taken from. -/
def smallPrimes : List Nat :=
  [2, 3, 5, 7, 11, 13, 17, 19, 23, 29, 31, 37, 41, 43, 47, 53, 59, 61, 67, 71, 73, 79, 83, 89, 97]

/-- The number of times two divides `n`, counted up to `bound`, and what is
left. -/
def splitTwos (n : Nat) : (bound : Nat) → Nat × Nat
  | 0 => (0, n)
  | bound + 1 =>
    if n % 2 = 0 then let (k, odd) := splitTwos (n / 2) bound; (k + 1, odd) else (0, n)

/-- Whether one of `x`, `x ^ 2`, … with `k` members is `n - 1` modulo `n`. -/
def meetsMinusOne (n x : Nat) : (k : Nat) → Bool
  | 0 => false
  | k + 1 => x == n - 1 || meetsMinusOne n (x * x % n) k

/-- Whether `n` behaves as a prime does for the base `a`. -/
def passesBase (n a : Nat) : Bool :=
  let (k, odd) := splitTwos (n - 1) n.log2
  let x := pow a odd n
  x == 1 || meetsMinusOne n x k

/-- Whether `n` has no small factor and passes for every small base. -/
def isProbablePrime (n : Nat) : Bool :=
  n ∈ smallPrimes || (n > 1 && smallPrimes.all (n % · != 0) && smallPrimes.all (passesBase n ·))

end Presign.Modular

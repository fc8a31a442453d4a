import Presign.Octets
import Presign.Text.Numeral

/-!
# Object identifiers

An object identifier is a root below 3, a second arc below 40 and further
arcs of 64 bits.  `text` and `parse?` are its dotted form.  `content` and
`ofContent?` are the content octets of its encoding.

An arc above 128 is written in groups of seven bits, most significant group
first, with the high bit set on every group but the last.  A group is split
off while what is left is above 128.  So 128 stays one octet, and an arc whose
leading groups make 128 has that octet in front.

Reading is the looser one.  A group of zero at the start of an arc adds
nothing, an arc that comes to zero this way is dropped, and so is an arc that
the content does not finish.
-/

namespace Presign

/-- An object identifier. -/
structure Oid where
  /-- The first arc. -/
  root : Fin 3
  /-- The second arc. -/
  second : Fin 40
  /-- The arcs below. -/
  arcs : List UInt64
deriving DecidableEq, Repr

namespace Oid

/-! ## Dotted text -/

/-- The arcs as numbers. -/
def numbers (o : Oid) : List Nat := o.root.val :: o.second.val :: o.arcs.map UInt64.toNat

/-- The dotted form. -/
def text (o : Oid) : String := String.intercalate "." (o.numbers.map fun n => toString n)

/-- Reads the numerals of the arcs below the second. -/
def readArcs? : List (List Char) → Option (List UInt64)
  | [] => some []
  | piece :: pieces => do
    let n ← Text.numeral? UInt64.size piece
    let ns ← readArcs? pieces
    return UInt64.ofNat n :: ns

/-- Reads the dotted form.  At least two arcs are needed. -/
def parse? (s : String) : Option Oid :=
  match Text.splitAt '.' s.toList with
  | first :: second :: rest => do
    let r ← Text.numeral? 256 first
    let n ← Text.numeral? 256 second
    let arcs ← readArcs? rest
    if h : r < 3 ∧ n < 40 then return ⟨⟨r, h.1⟩, ⟨n, h.2⟩, arcs⟩ else none
  | _ => none

/-! ## Content octets -/

/-- The groups of an arc before its last one, with the high bit set.  Nothing
stands before a group of zero. -/
def leadingGroups (n : Nat) : Octets :=
  if n = 0 then []
  else if n ≤ 128 then [UInt8.ofNat (n % 128 + 128)]
  else leadingGroups (n / 128) ++ [UInt8.ofNat (n % 128 + 128)]
termination_by n
decreasing_by omega

/-- The octets of one arc. -/
def arcOctets (arc : UInt64) : Octets :=
  let n := arc.toNat
  if n ≤ 128 then [UInt8.ofNat n]
  else leadingGroups (n / 128) ++ [UInt8.ofNat (n % 128)]

/-- The content octets of the encoding. -/
def content (o : Oid) : Octets :=
  UInt8.ofNat (o.root.val * 40 + o.second.val) :: o.arcs.flatMap arcOctets

/-- An arc at or above this number takes no further group. -/
def arcLimit : Nat := 0x1FFFFFFFFFFFFFF

/-- Reads the arcs after the first octet.  `begun` is the part of an arc whose
groups so far had the high bit set. -/
def arcsOfContent? (begun : Option Nat) : Octets → Option (List UInt64)
  | [] => some []
  | b :: bs =>
    match begun with
    | none =>
      if b < 128 then (arcsOfContent? none bs).map (UInt64.ofNat b.toNat :: ·)
      else arcsOfContent? (some (b.toNat % 128)) bs
    | some v =>
      if arcLimit ≤ v then none
      else
        let v := v * 128 + b.toNat % 128
        if b ≥ 128 then arcsOfContent? (some v) bs
        else if v = 0 then arcsOfContent? none bs
        else (arcsOfContent? none bs).map (UInt64.ofNat v :: ·)

/-- Reads the content octets of an encoding. -/
def ofContent? : Octets → Option Oid
  | [] => none
  | b :: bs => do
    let arcs ← arcsOfContent? none bs
    if h : b.toNat / 40 < 3 then
      return ⟨⟨b.toNat / 40, h⟩, ⟨b.toNat % 40, Nat.mod_lt _ (by decide)⟩, arcs⟩
    else none

end Oid

end Presign

import Presign.Proofs.AlgorithmIdentifier
import Presign.Proofs.Oid

/-!
# The two readers of algorithm identifiers

Whatever the reader of sequences takes for an algorithm identifier, the loose reader takes for
the same one (`ofDerLoose?_of_ofDer`).  Both look at the same places: the first one has cut the
name as one element of the shortest length and the parameters as one piece, and the second one
finds the name where the length of the sequence ends and the parameters where the name ends.
It does not look beyond the sequence, and nothing is there.

What is written is read by both with its parameters as they are, and with the name that the
content of the name tells (`readers_exact`).  This is the name that was written exactly if its
arcs are plain.  The first reader takes sequences of less than `2 ^ 32` octets only, the loose
one all that are numbered by words.
-/

namespace Presign.AlgorithmIdentifier

variable {front name e : Octets} {parameters : Option Octets} {n : Nat}

/-! ## Lengths -/

/-- Up to eight digits behind an octet that counts them are a length. -/
theorem looseLength?_digits {b : UInt8} {digits : Octets} (hmost : digits.length ≤ 8)
    (hcount : b.toNat = 128 + digits.length) (rest : Octets) :
    looseLength? (b :: (digits ++ rest)) = some (digits.toNat, rest) := by
  have hlt := Der.not_lt_of_counts hcount
  rw [looseLength?, if_neg hlt, hcount, Nat.add_sub_cancel_left]
  dsimp only
  rw [if_pos ⟨hmost, by rw [List.length_append]; omega⟩, List.take_left' rfl, List.drop_left' rfl]

theorem looseLength?_of_isLength (h : Der.IsLength front n) (rest : Octets) :
    looseLength? (front ++ rest) = some (n, rest) := by
  cases h with
  | short hb => rw [List.singleton_append, looseLength?, if_pos hb]
  | long _ hmost hcount => exact looseLength?_digits (by omega) hcount rest

/-- The loose reader takes lengths that the other one does not. -/
theorem looseLength?_lengthOctets (h : n < 2 ^ 64) (rest : Octets) :
    looseLength? (Der.lengthOctets n ++ rest) = some (n, rest) := by
  by_cases hn : n < 2 ^ 32
  · exact looseLength?_of_isLength (Der.isLength_lengthOctets hn) rest
  · have hsize : Octets.natSize n ≤ 8 := Octets.natSize_le h
    have hcount : (UInt8.ofNat (128 + Octets.natSize n)).toNat = 128 + (Octets.ofNat n).length := by
      rw [UInt8.toNat_ofNat', ← Octets.natSize]
      omega
    rw [Der.lengthOctets, if_neg (by omega), List.cons_append,
      looseLength?_digits hsize hcount rest, Octets.toNat_ofNat]

/-! ## Fields -/

/-- A name in front of anything is read as its content tells it. -/
theorem looseName?_element (hsize : name.length < 2 ^ 64) (rest : Octets) :
    looseName? (Der.element Der.Tag.oid name ++ rest)
      = (Oid.ofContent? name).map fun o => (o, rest) := by
  have hlength := looseLength?_lengthOctets hsize (name ++ rest)
  have hname : isNameTag Der.Tag.oid = true := by decide
  rw [Der.element, List.cons_append, List.cons_append, List.append_assoc, looseName?, hlength]
  cases ho : Oid.ofContent? name with
  | none => simp [hname, ho]
  | some o => simp [hname, ho]

/-- A piece is as large as it looks. -/
theorem looseParameters?_of_isPiece (h : Der.IsPiece e) :
    looseParameters? e.length e = some e := by
  cases e with
  | nil => exact absurd rfl h.ne_nil
  | cons tag bs =>
      rw [Der.IsPiece, Der.elements?_cons] at h
      obtain ⟨size, hpeek, h⟩ := Option.bind_eq_some_iff.mp h
      split at h
      next hsize =>
        obtain ⟨es, -, hes⟩ := Option.map_eq_some_iff.mp h
        have hwhole : (bs.take (size - 1)).length = bs.length :=
          congrArg List.length (List.cons.inj (List.cons.inj hes).1).2
        have hall : size = (tag :: bs).length := by
          rw [List.length_take] at hwhole
          rw [List.length_cons]
          omega
        simp [looseParameters?, hpeek, hall]
      next => cases h

/-- Behind any form of its length, a sequence is read from its two fields, or from the first
alone. -/
theorem ofDerLoose?_fields
    (hlength : looseLength? (front ++ (fields name parameters).flatten)
      = some ((fields name parameters).flatten.length, (fields name parameters).flatten))
    (hsize : (fields name parameters).flatten.length < 2 ^ 64)
    (hparameters : ∀ e ∈ parameters, Der.IsPiece e) :
    ofDerLoose? (Der.Tag.sequence :: (front ++ (fields name parameters).flatten))
      = (Oid.ofContent? name).map fun o => ⟨o, parameters⟩ := by
  have hname : name.length < 2 ^ 64 :=
    calc name.length < (Der.element Der.Tag.oid name).length := Der.length_lt_element _ _
      _ ≤ (fields name parameters).flatten.length := Der.length_le_flatten (List.mem_cons_self ..)
      _ < 2 ^ 64 := hsize
  have hread : looseName? (fields name parameters).flatten
      = (Oid.ofContent? name).map fun o => (o, parameters.toList.flatten) := by
    rw [fields, List.flatten_cons, looseName?_element hname]
  have hsizes : (fields name parameters).flatten.length
      = (Der.element Der.Tag.oid name).length + parameters.toList.flatten.length := by
    rw [fields, List.flatten_cons, List.length_append]
  have hpos : 0 < (Der.element Der.Tag.oid name).length :=
    Nat.lt_of_le_of_lt (Nat.zero_le _) (Der.length_lt_element _ _)
  have htag : ¬ Der.Tag.sequence.toNat / 32 % 2 = 0 := by decide
  rw [ofDerLoose?, hlength]
  simp only [Option.bind_eq_bind, Option.bind_some, if_neg htag, hread]
  generalize (fields name parameters).flatten.length = total at hsizes
  rw [if_neg (by omega)]
  cases Oid.ofContent? name with
  | none => rfl
  | some o =>
      rw [Option.map_some, Option.bind_some, if_neg (by simp only; omega)]
      cases parameters with
      | none => simp [bare]
      | some e =>
          have hpos := List.length_pos_iff.mpr (hparameters e rfl).ne_nil
          rw [Option.toList_some, List.flatten_singleton] at hsizes ⊢
          have hleft : total - (total - e.length) = e.length := by omega
          dsimp only
          rw [if_neg (by omega), hleft, looseParameters?_of_isPiece (hparameters e rfl)]
          rfl

/-! ## Agreement -/

/-- What is read strictly is read loosely. -/
theorem ofDerLoose?_of_ofDer {bs : Octets} {a : AlgorithmIdentifier} (h : ofDer bs = .ok a) :
    ofDerLoose? bs = some a := by
  obtain ⟨front, name, hfront, rfl, ho, hparameters⟩ := ofDer_eq_ok_iff.mp h
  have hsize := Nat.lt_trans hfront.lt (show 2 ^ 32 < 2 ^ 64 by decide)
  rw [ofDerLoose?_fields (looseLength?_of_isLength hfront _) hsize hparameters, ho, Option.map_some]

/-- What is written is read loosely with its parameters, and with the name that the content of
the name tells. -/
theorem ofDerLoose?_toDer {a : AlgorithmIdentifier} (hparameters : ∀ e ∈ a.parameters, Der.IsPiece e)
    (hsize : (fields a.algorithm.content a.parameters).flatten.length < 2 ^ 64) :
    ofDerLoose? a.toDer
      = (Oid.ofContent? a.algorithm.content).map fun o => ⟨o, a.parameters⟩ :=
  ofDerLoose?_fields (looseLength?_lengthOctets hsize _) hsize hparameters

/-- An identifier is read as another one: its parameters are kept, and its name is the one that
its content tells. -/
structure IsReadAs (a b : AlgorithmIdentifier) : Prop where
  algorithm : Oid.ofContent? a.algorithm.content = some b.algorithm
  parameters : b.parameters = a.parameters

theorem isReadAs_self_iff {a : AlgorithmIdentifier} :
    a.IsReadAs a ↔ ∀ arc ∈ a.algorithm.arcs, Oid.IsPlainArc arc := by
  rw [← Oid.ofContent?_content_iff]
  constructor
  · intro h
    exact h.algorithm
  · intro h
    exact ⟨h, rfl⟩

/-- Both readers read what is written with its parameters, and with the name that the content
of the name tells; the first one if there are less than `2 ^ 32` octets inside.  This is what
was written exactly if the arcs of the name are plain.  Whatever the first reader reads, the
loose one reads as the same. -/
theorem readers_exact (a b : AlgorithmIdentifier) (bs : Octets) :
    ((∀ e ∈ a.parameters, Der.IsElement e) →
      (ofDer a.toDer = .ok b
        ↔ (fields a.algorithm.content a.parameters).flatten.length < 2 ^ 32 ∧ a.IsReadAs b) ∧
      ((fields a.algorithm.content a.parameters).flatten.length < 2 ^ 64 →
        (ofDerLoose? a.toDer = some b ↔ a.IsReadAs b))) ∧
    (a.IsReadAs a ↔ ∀ arc ∈ a.algorithm.arcs, Oid.IsPlainArc arc) ∧
    (ofDer bs = .ok a → ofDerLoose? bs = some a) := by
  refine ⟨fun hparameters => ⟨?_, fun hsize => ?_⟩, isReadAs_self_iff, ofDerLoose?_of_ofDer⟩
  · rw [ofDer_toDer_iff fun e he => (hparameters e he).isWhole]
    exact and_congr_right fun _ => ⟨fun h => ⟨h.1, h.2⟩, fun h => ⟨h.algorithm, h.parameters⟩⟩
  · rw [ofDerLoose?_toDer (fun e he => (hparameters e he).isPiece) hsize, Option.map_eq_some_iff]
    constructor
    · rintro ⟨o, ho, rfl⟩
      exact ⟨ho, rfl⟩
    · rintro ⟨ho, hkept⟩
      exact ⟨b.algorithm, ho, by rw [← hkept]⟩

/-- A name with arcs of several octets, and parameters with elements inside. -/
def nested : AlgorithmIdentifier :=
  ⟨Oid.ecPublicKey, some (Der.sequence [Der.oid Oid.p256, Der.octetString (List.replicate 200 7)])⟩

/-- For example, both readers read `nested` as it is. -/
theorem readers_exact_nested :
    ofDer nested.toDer = .ok nested ∧ ofDerLoose? nested.toDer = some nested := by
  have hparameters : ∀ e ∈ nested.parameters, Der.IsElement e := by
    intro e he
    cases he
    exact Der.isElement_sequence (by decide +kernel)
  have hsize : (fields nested.algorithm.content nested.parameters).flatten.length < 2 ^ 32 := by
    decide +kernel
  obtain ⟨hread, hself, hagree⟩ := readers_exact nested nested nested.toDer
  have hplain := hself.mpr (Oid.ofContent?_content_iff.mp (by decide +kernel))
  have hstrict := (hread hparameters).1.mpr ⟨hsize, hplain⟩
  exact ⟨hstrict, hagree hstrict⟩

/-- An arc of 128 is lost for both readers. -/
theorem readers_undivided :
    ofDer (withNull ⟨1, 2, [128]⟩).toDer = .ok (withNull ⟨1, 2, []⟩) ∧
    ofDerLoose? (withNull ⟨1, 2, [128]⟩).toDer = some (withNull ⟨1, 2, []⟩) ∧
    ofDer (withNull ⟨1, 2, [128]⟩).toDer ≠ .ok (withNull ⟨1, 2, [128]⟩) := by
  decide +kernel

end Presign.AlgorithmIdentifier

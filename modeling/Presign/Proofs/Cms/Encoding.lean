import Presign.Proofs.AlgorithmIdentifier
import Presign.Proofs.Cms.SignedSet

/-!
# Signed attributes that are written and read

Attributes that were read, and new ones, are read again as they are when they are
part of a set (`Attribute.IsExact`).  So a set that is written is read as the same
attributes, in the order of their encodings.

A protection that is written is read with the algorithms that it protects, but with the
object identifier of the signature algorithm that its content tells.  This is another
one if the identifier has an arc of 128.
-/

namespace Presign

namespace Cms

/-! ## Protections -/

/-- The fields of a protection that names a signature algorithm. -/
def Protection.fields (digest signature : AlgorithmIdentifier) : List Octets :=
  [digest.toDer, Der.retag signatureTag signature.toDer]

theorem Protection.toDer_eq (digest signature : AlgorithmIdentifier) :
    toDer ⟨digest, some signature⟩ = Der.sequence (fields digest signature) := rfl

/-- A protection that is written is read with the digest method and the signature
algorithm that its parts are read as, if it has less than `2 ^ 32` octets inside. -/
theorem Protection.ofDer_toDer_iff {digest signature : AlgorithmIdentifier} {q : Protection} :
    ofDer (Protection.toDer ⟨digest, some signature⟩) = .ok q
      ↔ (fields digest signature).flatten.length < 2 ^ 32 ∧
        AlgorithmIdentifier.ofDer digest.toDer = .ok q.digest ∧
        ∃ s, AlgorithmIdentifier.ofDer signature.toDer = .ok s ∧ q.signature = some s := by
  have hwhole : ∀ e ∈ fields digest signature, Der.IsWhole e := by
    intro e he
    rcases List.mem_pair.mp he with rfl | rfl
    · exact ⟨_, _, by decide, rfl⟩
    · exact ⟨_, _, by decide, rfl⟩
  have hretag : Der.retag Der.Tag.sequence (Der.retag signatureTag signature.toDer)
      = signature.toDer := rfl
  have hfind : [Der.retag signatureTag signature.toDer].find?
      (fun field => field.head? == some signatureTag)
      = some (Der.retag signatureTag signature.toDer) := rfl
  rw [ofDer, toDer_eq, Except.bind_eq_ok, Der.readSequence, Der.sequence]
  simp only [Der.readElements_element_iff (show Der.Tag.sequence % 32 ≠ 31 by decide) hwhole,
    and_assoc, exists_and_left, exists_eq_left]
  refine and_congr_right fun _ => ?_
  simp only [fields, Except.bind_eq_ok, hfind, hretag]
  obtain ⟨qdigest, qsignature⟩ := q
  simp [pure, Except.pure, eq_comm]

/-- The protection for an algorithm is read with the identifiers of the algorithm,
except that the content of its object identifier decides which one it is. -/
theorem Protection.ofDer_of_iff {a : SignatureAlgorithm} {i : AlgorithmIdentifier}
    (hi : a.algorithmIdentifier? = some i) {q : Protection} :
    ofDer (Protection.of a i).toDer = .ok q
      ↔ (fields a.digest.algorithmIdentifier i).flatten.length < 2 ^ 32 ∧
        q.digest = a.digest.algorithmIdentifier ∧ ∃ o,
        Oid.ofContent? i.algorithm.content = some o ∧ q.signature = some ⟨o, i.parameters⟩ := by
  rw [of, ofDer_toDer_iff, a.digest.ofDer_algorithmIdentifier, Except.ok.injEq,
    eq_comm (a := q.digest)]
  refine and_congr_right fun hsize => and_congr_right fun _ => ?_
  have hsignature : (AlgorithmIdentifier.fields i.algorithm.content i.parameters).flatten.length
      < 2 ^ 32 :=
    calc _ < i.toDer.length := Der.length_lt_element _ _
      _ = (Der.retag signatureTag i.toDer).length := (Der.length_retag signatureTag i.toDer).symm
      _ ≤ (fields a.digest.algorithmIdentifier i).flatten.length :=
        Der.length_le_flatten (List.mem_pair.mpr (Or.inr rfl))
      _ < 2 ^ 32 := hsize
  have hparameters : ∀ e ∈ i.parameters, Der.IsWhole e :=
    fun e he => (SignatureAlgorithm.isElement_parameters hi e he).isWhole
  simp only [AlgorithmIdentifier.ofDer_toDer_iff hparameters, hsignature, true_and]
  constructor
  · rintro ⟨s, ⟨hoid, hs⟩, hq⟩
    exact ⟨s.algorithm, hoid, by rw [hq, ← hs]⟩
  · rintro ⟨o, hoid, hq⟩
    exact ⟨⟨o, i.parameters⟩, ⟨hoid, rfl⟩, hq⟩

/-! ## Attributes -/

/-- An attribute whose encoding is one element, from which it is read. -/
structure Attribute.IsExact (b : Attribute) : Prop where
  isElement : Der.IsElement b.encoded
  ofDer : Attribute.ofDer b.encoded = .ok b

theorem mapM_ofDer_eq_ok_iff {bss : List Octets} {as : Attributes} :
    bss.mapM Attribute.ofDer = .ok as
      ↔ as.encodings = bss ∧ ∀ b ∈ as, Attribute.ofDer b.encoded = .ok b := by
  have hself : as.encodings.mapM Attribute.ofDer = .ok as
      ↔ ∀ b ∈ as, Attribute.ofDer b.encoded = .ok b := by
    rw [Except.mapM_eq_ok_iff fun _ _ _ => Iff.rfl, Attributes.encodings,
      List.forall₂_map_left_iff, List.forall₂_same]
  constructor
  · intro h
    obtain rfl := encodings_of_mapM h
    exact ⟨rfl, hself.mp h⟩
  · rintro ⟨rfl, h⟩
    exact hself.mpr h

/-- Attributes that were read are exact. -/
theorem Attributes.isExact_of_ofDer {bs : Octets} {as : Attributes}
    (h : Attributes.ofDer bs = .ok as) : ∀ b ∈ as, b.IsExact := by
  intro b hb
  obtain ⟨es, hes, hmap⟩ := Except.bind_eq_ok.mp h
  obtain ⟨rfl, hread⟩ := mapM_ofDer_eq_ok_iff.mp hmap
  obtain ⟨inner, -, helements⟩ := Der.readElements_eq_ok_iff.mp hes
  obtain ⟨parts, hparts, -⟩ := Except.bind_eq_ok.mp (hread b hb)
  obtain ⟨content, hcontent, -⟩ := Der.readElements_eq_ok_iff.mp hparts
  exact ⟨Der.isElement_of_mem_elements? helements (List.mem_map_of_mem hb) hcontent, hread b hb⟩

/-- A value that is read to its end has the shortest length. -/
theorem Attribute.eq_element_of_mem_values {bs v inner : Octets} {b : Attribute} {tag : UInt8}
    {name : String} (h : Attribute.ofDer bs = .ok b) (hv : v ∈ b.values)
    (hcontent : Der.content tag name v = .ok inner) : v = Der.element tag inner := by
  obtain ⟨parts, -, h⟩ := Except.bind_eq_ok.mp h
  split at h
  next =>
    obtain ⟨type, -, h⟩ := Except.bind_eq_ok.mp h
    obtain ⟨values, hvalues, h⟩ := Except.bind_eq_ok.mp h
    cases h
    obtain ⟨inside, -, helements⟩ := Der.readElements_eq_ok_iff.mp hvalues
    exact Der.eq_element_of_mem_elements? helements hv hcontent
  next => cases h

/-- The value of a new attribute is shorter than the attribute. -/
theorem Attribute.length_value_lt (type : Oid) (value : Octets) :
    value.length < (Attribute.of type [value]).encoded.length := by
  have hset : (Der.setOf [value]).length < (Attribute.of type [value]).encoded.length :=
    Der.length_lt_sequence (List.mem_pair.mpr (Or.inr rfl))
  exact Nat.lt_trans (Der.length_lt_setOf (List.mem_singleton_self value)) hset

/-- An attribute is shorter than the set it is in. -/
theorem Attributes.length_encoded_lt {as : Attributes} {b : Attribute} (h : b ∈ as) :
    b.encoded.length < as.toDer.length :=
  Der.length_lt_setOf (List.mem_map_of_mem h)

theorem Protection.length_toDer_lt {as : Attributes} {q : Protection} (h : q.toAttribute ∈ as) :
    q.toDer.length < as.toDer.length :=
  Nat.lt_trans (Attribute.length_value_lt _ _) (Attributes.length_encoded_lt h)

/-- An attribute is read as another one: its encoding is kept, its values are in ascending order,
and its type is the one that its content tells. -/
structure Attribute.IsReadAs (a b : Attribute) : Prop where
  type : Oid.ofContent? a.type.content = some b.type
  values : b.values = a.values.mergeSort Octets.le
  encoded : b.encoded = a.encoded

/-- A new attribute is read if its type is. -/
theorem Attribute.ofDer_of_iff {type : Oid} {values : List Octets} {b : Attribute}
    (hvalues : ∀ v ∈ values, Der.IsElement v)
    (hsize : (Attribute.of type values).encoded.length < 2 ^ 32) :
    Attribute.ofDer (Attribute.of type values).encoded = .ok b
      ↔ (Attribute.of type values).IsReadAs b := by
  have hlength : ∀ e ∈ [Der.oid type, Der.setOf values], e.length < 2 ^ 32 :=
    fun e he => Nat.lt_trans (Der.length_lt_sequence he) hsize
  have hoid := hlength (Der.oid type) (by simp)
  have hset := hlength (Der.setOf values) (by simp)
  have helements : ∀ e ∈ [Der.oid type, Der.setOf values], Der.IsElement e := by
    intro e he
    rcases List.mem_pair.mp he with rfl | rfl
    · exact Der.isElement_oid hoid
    · exact Der.isElement_setOf hset
  have hparts := Der.readSequence_sequence helements hsize "attribute"
  have hread := Der.readSet_setOf hvalues hset "attribute values"
  rw [ofDer, of, hparts, Except.ok_bind]
  dsimp only
  rw [Except.bind_eq_ok]
  constructor
  · rintro ⟨type', htype', h⟩
    rw [hread, Except.ok_bind] at h
    cases h
    exact ⟨(Der.readOid_oid_iff hoid _).mp htype', rfl, rfl⟩
  · rintro ⟨htype, hvalues', hencoded⟩
    obtain ⟨type', values', encoded'⟩ := b
    cases hvalues'
    cases hencoded
    refine ⟨type', (Der.readOid_oid_iff hoid _).mpr htype, ?_⟩
    rw [hread, Except.ok_bind]
    rfl

/-- A new attribute with one value is exact, if its type is told by its content. -/
theorem Attribute.isExact_of {type : Oid} {value : Octets}
    (htype : Oid.ofContent? type.content = some type) (hvalue : Der.IsElement value)
    (hsize : (Attribute.of type [value]).encoded.length < 2 ^ 32) :
    (Attribute.of type [value]).IsExact := by
  refine ⟨Der.isElement_sequence hsize, (ofDer_of_iff (by simpa using hvalue) hsize).mpr ?_⟩
  exact ⟨htype, (List.mergeSort_singleton value).symm, rfl⟩

/-- Attributes in the order of their encodings have their encodings in order. -/
theorem Attributes.encodings_mergeSort (as : Attributes) :
    encodings (as.mergeSort fun b c => Octets.le b.encoded c.encoded)
      = as.encodings.mergeSort Octets.le := by
  unfold encodings
  exact List.map_mergeSort fun _ _ _ _ => rfl

/-- A set of exact attributes is read as these attributes, in the order of their
encodings. -/
theorem Attributes.ofDer_toDer {as : Attributes} (h : ∀ b ∈ as, b.IsExact)
    (hsize : as.toDer.length < 2 ^ 32) :
    Attributes.ofDer as.toDer = .ok (as.mergeSort fun b c => Octets.le b.encoded c.encoded) := by
  have helements : ∀ e ∈ as.map Attribute.encoded, Der.IsElement e := by
    intro e he
    obtain ⟨b, hb, rfl⟩ := List.mem_map.mp he
    exact (h b hb).isElement
  rw [Attributes.ofDer, toDer, Der.readSet_setOf helements hsize, ← encodings, ← encodings_mergeSort]
  exact mapM_ofDer_eq_ok_iff.mpr ⟨rfl, fun b hb => (h b (List.mem_mergeSort.mp hb)).ofDer⟩

end Cms

end Presign

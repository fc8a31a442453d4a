import Mathlib.Data.List.Permutation
import Presign.Proofs.Cms.Encoding
import Presign.Proofs.Oid

/-!
# New attributes that are written and read

A new attribute has its values in the order they were given in, and its encoding has them in
ascending order.  A set of new attributes is read one by one, in the ascending order of the
encodings (`Attributes.ofDer_toDer_iff`).  Each of them is read with its encoding as it was and
with its values in ascending order.  Equal values and equal attributes stay as many as they were.

What may change is the type.  It is the one that its content tells, so it is the one that was
given exactly if each of its arcs is read back (`Attributes.ofDer_toDer_of`).
-/

namespace Presign.Cms

open Oid (IsPlainArc)

/-! ## Orders -/

/-- The attribute with its values in ascending order. -/
def Attribute.ascending (a : Attribute) : Attribute :=
  { a with values := a.values.mergeSort Octets.le }

/-- The attributes in the ascending order of their encodings. -/
def Attributes.ascending (as : Attributes) : Attributes :=
  as.mergeSort fun a b => Octets.le a.encoded b.encoded

/-- An attribute with elements as values, and with the encoding of a new one. -/
structure Attribute.IsNew (a : Attribute) : Prop where
  eq_of : a = .of a.type a.values
  values : ∀ v ∈ a.values, Der.IsElement v

theorem Attributes.mem_ascending {as : Attributes} {a : Attribute} :
    a ∈ as.ascending ↔ a ∈ as := List.mem_mergeSort

theorem Attributes.encodings_ascending (as : Attributes) :
    as.ascending.encodings = as.encodings.mergeSort Octets.le := as.encodings_mergeSort

/-! ## Reading what was written -/

/-- An attribute is read as itself, with its values in ascending order, exactly if its type is
read back. -/
theorem Attribute.isReadAs_ascending_iff {a : Attribute} :
    a.IsReadAs a.ascending ↔ ∀ arc ∈ a.type.arcs, IsPlainArc arc := by
  rw [← Oid.ofContent?_content_iff]
  exact ⟨fun h => h.type, fun h => ⟨h, rfl, rfl⟩⟩

namespace Attributes

variable {as read : Attributes}

section New

variable (hnew : ∀ a ∈ as, a.IsNew) (hsize : as.toDer.length < 2 ^ 32)
include hnew hsize

/-- New attributes are read one by one, in the order of their encodings. -/
theorem ofDer_toDer_iff :
    ofDer as.toDer = .ok read ↔ List.Forall₂ Attribute.IsReadAs as.ascending read := by
  have hshort {a : Attribute} (ha : a ∈ as) :
      (Attribute.of a.type a.values).encoded.length < 2 ^ 32 := by
    rw [← (hnew a ha).eq_of]
    exact Nat.lt_trans (length_encoded_lt ha) hsize
  have helements : ∀ e ∈ as.map Attribute.encoded, Der.IsElement e := by
    intro e he
    obtain ⟨a, ha, rfl⟩ := List.mem_map.mp he
    rw [(hnew a ha).eq_of]
    exact Der.isElement_sequence (hshort ha)
  have hset : Der.readSet "signed attributes" as.toDer = .ok as.ascending.encodings :=
    (Der.readSet_setOf helements hsize _).trans (congrArg _ as.encodings_ascending.symm)
  rw [ofDer, hset, Except.ok_bind, encodings, List.mapM_map]
  refine Except.mapM_eq_ok_iff fun a ha b => ?_
  have ha := mem_ascending.mp ha
  have hone := Attribute.ofDer_of_iff (b := b) (hnew a ha).values (hshort ha)
  rwa [← (hnew a ha).eq_of] at hone

/-- New attributes are read as the same attributes, in the order of their encodings and each with
its values in ascending order, exactly if all types are read back.  In any case each is read with
its encoding, its values in ascending order, and the type that its content tells, and nothing is
read if a type is not. -/
theorem ofDer_toDer_of :
    (ofDer as.toDer = .ok (as.ascending.map Attribute.ascending)
      ↔ ∀ a ∈ as, ∀ arc ∈ a.type.arcs, IsPlainArc arc) ∧
    ∀ read, ofDer as.toDer = .ok read ↔ List.Forall₂ Attribute.IsReadAs as.ascending read := by
  have hread (read : Attributes) :
      ofDer as.toDer = .ok read ↔ List.Forall₂ Attribute.IsReadAs as.ascending read :=
    ofDer_toDer_iff hnew hsize
  refine ⟨?_, hread⟩
  rw [hread, List.forall₂_map_right_iff, List.forall₂_same]
  simp only [mem_ascending, Attribute.isReadAs_ascending_iff]

end New

/-- New attributes that are not in order, of which two are equal.  Their values are not in order
either, and one of them takes a length of two octets. -/
def disordered : Attributes :=
  [.of (Oid.pkcs9 [16383])
      [Der.octetString (List.replicate 200 7), [4, 1, 9], [2, 1, 9], [4, 1, 9]],
    .of (Oid.pkcs9 [99]) [[4, 1, 1]],
    .of (Oid.pkcs9 [98]) [],
    .of (Oid.pkcs9 [99]) [[4, 1, 1]]]

theorem isNew_disordered : ∀ a ∈ disordered, a.IsNew := by
  have hone (n : UInt8) : Der.IsElement [4, 1, n] :=
    show Der.IsElement (Der.element 4 [n]) from
      Der.isElement_element (by decide) (by rw [List.length_singleton]; decide)
  have hinteger : Der.IsElement [2, 1, 9] :=
    show Der.IsElement (Der.element 2 [9]) from Der.isElement_element (by decide) (by decide)
  have hlong : Der.IsElement (Der.octetString (List.replicate 200 7)) :=
    Der.isElement_element (by decide) (by rw [List.length_replicate]; decide)
  simp only [disordered, List.forall_mem_cons, List.not_mem_nil, false_imp_iff, implies_true,
    and_true]
  refine ⟨⟨rfl, ?_⟩, ⟨rfl, ?_⟩, ⟨rfl, ?_⟩, rfl, ?_⟩
  · simp only [Attribute.of, List.forall_mem_cons]
    exact ⟨hlong, hone 9, hinteger, hone 9, fun v hv => by cases hv⟩
  · simpa [Attribute.of] using hone 1
  · simp [Attribute.of]
  · simpa [Attribute.of] using hone 1

/-- For example, these are read in order, and no fewer than they were. -/
theorem ofDer_toDer_of_disordered :
    ofDer disordered.toDer = .ok
      [⟨Oid.pkcs9 [98], [], (Attribute.of (Oid.pkcs9 [98]) []).encoded⟩,
        ⟨Oid.pkcs9 [99], [[4, 1, 1]], (Attribute.of (Oid.pkcs9 [99]) [[4, 1, 1]]).encoded⟩,
        ⟨Oid.pkcs9 [99], [[4, 1, 1]], (Attribute.of (Oid.pkcs9 [99]) [[4, 1, 1]]).encoded⟩,
        ⟨Oid.pkcs9 [16383],
          [[2, 1, 9], [4, 1, 9], [4, 1, 9], Der.octetString (List.replicate 200 7)],
          (Attribute.of (Oid.pkcs9 [16383]) [Der.octetString (List.replicate 200 7), [4, 1, 9],
            [2, 1, 9], [4, 1, 9]]).encoded⟩] := by
  have hplain : ∀ a ∈ disordered, ∀ arc ∈ a.type.arcs, IsPlainArc arc := by
    intro a ha
    exact Oid.ofContent?_content_iff.mp
      ((by decide +kernel : ∀ a ∈ disordered, Oid.ofContent? a.type.content = some a.type) a ha)
  rw [(ofDer_toDer_of isNew_disordered (by cbv)).1.mpr hplain]
  cbv

/-- An attribute of a type with an arc of 128 is read with a shorter type. -/
theorem ofDer_toDer_undivided :
    (Attribute.of ⟨1, 2, [128]⟩ [Der.null]).IsNew ∧
    ofDer (toDer [.of ⟨1, 2, [128]⟩ [Der.null]])
      = .ok [⟨⟨1, 2, []⟩, [Der.null], (Attribute.of ⟨1, 2, [128]⟩ [Der.null]).encoded⟩] :=
  ⟨⟨rfl, by simpa [Attribute.of] using Der.isElement_null⟩, by decide +kernel⟩

end Attributes

end Presign.Cms

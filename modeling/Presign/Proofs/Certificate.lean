import Presign.Certificate
import Presign.Proofs.Der.Strict
import Presign.Proofs.Der.Value

/-!
# The fields of a certificate

A certificate that is read has its serial number and its issuer where they belong:
behind an explicit version if there is one, and else in front
(`exists_hasFields_of_ofDer`).

The reader cuts fields tolerantly.  If what is certified can be read strictly, the
fields are those that the strict reader finds (`HasFields.map_octets`).
-/

namespace Presign.Certificate

open Der

/-- The fields that a certificate is known by.  The serial number is given by its
content, and the issuer by the whole element. -/
structure HasFields (bs : Octets) (version : Option Octets) (serialNumber issuer : Octets) :
    Prop where
  /-- What is certified comes first.  In it, the serial number stands behind the version
  and the issuer two fields later. -/
  exists_readSequence : ∃ certified outer signature others,
    readSequence "certificate" bs = .ok (certified :: outer) ∧
    readSequence "tbs certificate" certified
      = .ok (version.toList ++ element Tag.integer serialNumber :: signature :: issuer :: others)
  /-- A version is explicit. -/
  head?_version : ∀ v ∈ version, v.head? = some (Tag.context 0)

/-- Fields are an explicit version, if there is one, and those without it. -/
theorem exists_version (fields : List Octets) :
    ∃ version : Option Octets, fields = version.toList ++ withoutVersion fields ∧
      ∀ v ∈ version, v.head? = some (Tag.context 0) := by
  have hnone : ∃ version : Option Octets, fields = version.toList ++ fields ∧
      ∀ v ∈ version, v.head? = some (Tag.context 0) := by
    refine ⟨none, rfl, fun v hv => ?_⟩
    cases hv
  unfold withoutVersion
  split
  next tag inner rest =>
    split
    next htag =>
      refine ⟨some (tag :: inner), rfl, fun v hv => ?_⟩
      cases hv
      rw [List.head?_cons, htag]
    next => exact hnone
  next => exact hnone

/-- A certificate is read with its fields. -/
theorem exists_hasFields_of_ofDer {bs : Octets} {c : Certificate} (h : ofDer bs = .ok c) :
    ∃ version serialNumber name,
      HasFields bs version serialNumber c.issuer ∧ c.encoded = bs ∧
      c.serialNumber = element Tag.integer serialNumber ∧ serialNumber ≠ [] ∧
      c.issuer = element Tag.sequence name := by
  rw [ofDer, Except.bind_eq_ok] at h
  obtain ⟨outer, houter, h⟩ := h
  cases outer with
  | nil => cases h
  | cons certified outer =>
      rw [List.head?_cons] at h
      obtain ⟨fields, hfields, h⟩ := Except.bind_eq_ok.mp h
      rw [Except.mapError_eq_ok] at houter hfields
      obtain ⟨version, hversion, hexplicit⟩ := exists_version fields
      obtain ⟨inner, -, helements⟩ := readElements_eq_ok_iff.mp hfields
      generalize withoutVersion fields = named at h hversion
      split at h
      next serialNumber signature issuer validity subject publicKeyInfo others =>
        obtain ⟨serialContent, hserial, h⟩ := Except.bind_eq_ok.mp h
        obtain ⟨name, hissuer, h⟩ := Except.bind_eq_ok.mp h
        cases h
        rw [Except.mapError_eq_ok] at hserial hissuer
        obtain ⟨hserial, hne⟩ := readInteger_eq_ok_iff.mp hserial
        -- what is cut and read to its end has the shortest length
        have hserial' : serialNumber = element Tag.integer serialContent :=
          eq_element_of_mem_elements? helements (by simp [hversion]) hserial
        have hissuer' : issuer = element Tag.sequence name :=
          eq_element_of_mem_elements? helements (by simp [hversion]) hissuer
        refine ⟨version, serialContent, name, ⟨⟨certified, outer, signature,
          validity :: subject :: publicKeyInfo :: others, houter, ?_⟩, hexplicit⟩, rfl, hserial',
          hne, hissuer'⟩
        rw [hfields, hversion, hserial']
      next => cases h

/-- A strict reader of a certificate finds its fields at the same places. -/
theorem HasFields.map_octets {bs serialNumber issuer inner : Octets} {version : Option Octets}
    {certified : Strict.Part} {outer fields : List Strict.Part}
    (h : HasFields bs version serialNumber issuer)
    (hbs : Strict.all? bs = some [⟨Tag.sequence, inner⟩])
    (hinner : Strict.all? inner = some (certified :: outer))
    (hcertified : Strict.all? certified.content = some fields) :
    ∃ signature others, fields.map Strict.Part.octets
      = version.toList ++ element Tag.integer serialNumber :: signature :: issuer :: others := by
  obtain ⟨certified', outer', signature, others, houter, hfields⟩ := h.exists_readSequence
  obtain ⟨hreadable, hoctets⟩ := Strict.all?_eq_some_iff.mp hbs
  have hsize : inner.length < 2 ^ 32 := (hreadable _ (List.mem_singleton_self _)).2
  have hbs' : bs = element Tag.sequence inner := by
    rw [hoctets]
    exact List.append_nil _
  have hread : readSequence "certificate" bs
      = .ok (certified.octets :: outer.map Strict.Part.octets) :=
    readElements_eq_ok_iff.mpr ⟨inner, by rw [hbs', content_element (by decide) hsize],
      Strict.elements?_of_all? hinner⟩
  rw [hread] at houter
  cases houter
  obtain ⟨inner', hcontent, helements⟩ := readElements_eq_ok_iff.mp hfields
  obtain ⟨-, front, -, hfront⟩ := content_eq_ok_iff.mp hcontent
  have htag : certified.tag = Tag.sequence := (List.cons.inj hfront).1
  have hsize' := ((Strict.all?_eq_some_iff.mp hinner).1 _ (List.mem_cons_self ..)).2
  rw [Strict.Part.octets, htag, content_element (by decide) hsize', Except.ok.injEq] at hcontent
  rw [← hcontent, Strict.elements?_of_all? hcertified, Option.some.injEq] at helements
  exact ⟨signature, others, helements⟩

end Presign.Certificate

namespace Presign

/-- A certificate as short as it can be. -/
def shortCertificate : Certificate := ⟨[0x30, 0], [2, 1, 1], [0x30, 0], [0x30, 0]⟩

end Presign

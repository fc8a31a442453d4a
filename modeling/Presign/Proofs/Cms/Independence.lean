import Presign.Proofs.Cms.Stability

/-!
# What the answer does not depend on

Two requests get the same answer, be it the data to sign or a refusal, if their attributes
are alike (`Alike`): the checks find the same, and what is built from them is the same set.

* The order of attributes of distinct types does not count (`prepare_eq_of_perm`).  Each
  check looks an attribute up by its type, and a set is written in an order of its own.
* In an advanced signature under a relaxed policy nothing counts that the signer puts in
  place of what the client has sent (`prepare_eq_of_without`): no time of signing, no
  reference to a certificate, and no parameters of the protected algorithms.
-/

namespace Presign.Cms

/-- Attributes that the checks do not tell apart, and of which the same is signed. -/
structure Alike (p : Policy) (now : Time.Instant) (advanced : Bool) (c : Certificate)
    (a : SignatureAlgorithm) (as bs : Attributes) : Prop where
  checked : checkAttributes p now advanced a as = checkAttributes p now advanced a bs
  built : (build p advanced c a as).map Attributes.toDer
    = (build p advanced c a bs).map Attributes.toDer

section Alike

variable {p : Policy} {now : Time.Instant} {advanced : Bool} {c : Certificate}
  {a : SignatureAlgorithm} {as bs : Attributes}

/-- Requests that differ only in attributes that are alike get the same answer. -/
theorem Alike.prepare_eq {r s : Request} (h : Alike p now r.profile.isAdvanced c a as bs)
    (has : Lists r as) (hbs : Lists s bs) (htype : s.type = r.type) (hrule : s.rule = r.rule)
    (hadvanced : s.profile.isAdvanced = r.profile.isAdvanced) :
    prepare p now s c a = prepare p now r c a := by
  cases ht : r.type with
  | none =>
      rw [prepare, prepare, check_eq_of_noType has ht, check_eq_of_noType hbs (htype.trans ht)]
      rfl
  | some type =>
      rw [prepare_eq_of_lists has ht, prepare_eq_of_lists hbs (htype.trans ht), hadvanced, hrule,
        h.checked, h.built]

/-! ## Order -/

theorem checkContentType_congr (h : as.find? Oid.contentType = bs.find? Oid.contentType) :
    checkContentType as = checkContentType bs := by
  rw [checkContentType, h]
  rfl

theorem checkMessageDigest_congr (h : as.find? Oid.messageDigest = bs.find? Oid.messageDigest) :
    checkMessageDigest as = checkMessageDigest bs := by
  rw [checkMessageDigest, h]
  rfl

theorem checkTime_congr (h : as.find? Oid.signingTime = bs.find? Oid.signingTime) :
    checkTime p now advanced as = checkTime p now advanced bs := by
  unfold checkTime
  rw [h]

theorem checkProtection_congr
    (h : as.find? Oid.algorithmProtection = bs.find? Oid.algorithmProtection) :
    checkProtection a as = checkProtection a bs := by
  rw [checkProtection, h]
  rfl

/-- The same set is signed in each order, or none can be made. -/
theorem build_toDer_of_perm (hd : as.Distinct) (hp : as.Perm bs) :
    (build p advanced c a as).map Attributes.toDer
      = (build p advanced c a bs).map Attributes.toDer := by
  cases advanced with
  | true =>
      rw [build, build, if_pos rfl, if_pos rfl]
      cases identifierOf a with
      | error e => rfl
      | ok i =>
          have hadvance : (advance p c a i as).Perm (advance p c a i bs) :=
            (advance_perm_of_distinct hd).trans ((Exchange.apply_perm hp).trans
              (advance_perm_of_distinct (hd.perm hp)).symm)
          exact congrArg Except.ok (Attributes.toDer_perm hadvance)
  | false =>
      have hhas : hasCertificate as = hasCertificate bs := hp.any_eq
      have hreference : (withCertificate p c a as).Perm (withCertificate p c a bs) :=
        (withCertificate_perm p c a as).trans (((hp.filter _).cons _).trans
          (withCertificate_perm p c a bs).symm)
      rw [build, build, if_neg Bool.false_ne_true, if_neg Bool.false_ne_true, hhas]
      split
      next => exact congrArg Except.ok (Attributes.toDer_perm hreference)
      next => exact congrArg Except.ok (Attributes.toDer_perm hp)

/-- Attributes of distinct types are alike in each order, since each is found by its type. -/
theorem Attributes.Distinct.alike (hd : as.Distinct) (hp : as.Perm bs) :
    Alike p now advanced c a as bs := by
  have hfind := hd.find?_perm hp
  refine ⟨?_, build_toDer_of_perm hd hp⟩
  rw [checkAttributes, checkPresentable, checkContentType_congr (hfind _),
    checkMessageDigest_congr (hfind _), checkTime_congr (hfind _), checkProtection_congr (hfind _)]
  rfl

end Alike

section Prepared

variable {p : Policy} {now : Time.Instant} {r s : Request} {c : Certificate}
  {a : SignatureAlgorithm} {as bs : Attributes}

/-- Two requests that list attributes of distinct types, each in an order of its own, get the
same answer. -/
theorem prepare_eq_of_perm {data : Octets} (has : Lists r as)
    (hbs : Attributes.ofDer data = .ok bs) (hd : as.Distinct) (hp : as.Perm bs) :
    prepare p now { r with data := some data } c a = prepare p now r c a :=
  (hd.alike hp).prepare_eq has ⟨data, rfl, hbs⟩ rfl rfl rfl

/-- The assorted attributes, the last one first. -/
def backwardAttributes : Attributes := assortedAttributes.reverse

/-- For example, the assorted attributes can be listed backwards. -/
theorem prepare_eq_of_perm_backward :
    ∃ out, prepare {} ⟨1654724214, 0, by decide⟩ assortedRequest shortCertificate ecdsaSha256
        = .ok out ∧
      prepare {} ⟨1654724214, 0, by decide⟩
        { assortedRequest with
          data := some (Der.element Der.Tag.set backwardAttributes.encodings.flatten) }
        shortCertificate ecdsaSha256 = .ok out := by
  have hlists : Lists assortedRequest assortedAttributes := ⟨_, rfl, ofDer_assorted⟩
  have hread : Attributes.ofDer (Der.element Der.Tag.set backwardAttributes.encodings.flatten)
      = .ok backwardAttributes := by decide +kernel
  obtain ⟨out, h, -⟩ := exists_prepare_assorted ecdsaSha256 (List.mem_cons_self ..)
  exact ⟨out, h, (prepare_eq_of_perm hlists hread distinct_assorted
    (List.reverse_perm _).symm).trans h⟩

end Prepared

/-! ## What is replaced -/

/-- Attributes among which there is at most one protection, and that one protects the digest
method and the signature algorithm of an algorithm. -/
structure Attributes.ProtectsOnly (a : SignatureAlgorithm) (as : Attributes) : Prop where
  single : (as.map Attribute.type).count Oid.algorithmProtection ≤ 1
  protects : ∀ b ∈ as, b.type = Oid.algorithmProtection →
    ∃ v, b.values.head? = some v ∧ Protects a v

/-- The types of attributes that an advanced signature has from the signer. -/
def signerTypes : List Oid := replacedTypes ++ [Oid.algorithmProtection]

section Replaced

variable {p : Policy} {now : Time.Instant} {c : Certificate} {a : SignatureAlgorithm}
  {as bs : Attributes}

theorem Attributes.ProtectsOnly.check (h : as.ProtectsOnly a) : checkProtection a as = .ok () := by
  refine checkProtection_eq_ok_iff.mpr fun hhas => ?_
  obtain ⟨b, hb⟩ := Option.isSome_iff_exists.mp (find?_isSome_iff.mpr hhas)
  obtain ⟨hmem, htype⟩ := of_find? hb
  obtain ⟨v, hv, hprotects⟩ := h.protects b hmem htype
  exact ⟨b, v, hb, hv, hprotects⟩

/-- Under a relaxed policy no time of signing is at fault in an advanced signature. -/
theorem checkTime_of_relaxed (h : p.strict = false) : checkTime p now true as = .ok () :=
  checkTime_eq_ok_iff_of_advanced.mpr fun hstrict => absurd hstrict (by simp [h])

/-- Attributes of other types are found alike if the others are the same. -/
theorem find?_eq_of_without {type : Oid} (htype : type ∉ signerTypes)
    (h : as.without signerTypes = bs.without signerTypes) : as.find? type = bs.find? type := by
  rw [← Attributes.find?_without htype as, h, Attributes.find?_without htype bs]

/-- In an advanced signature under a relaxed policy, attributes are alike if they are the same
but for what the signer puts in their place. -/
theorem Attributes.ProtectsOnly.alike (hrelaxed : p.strict = false) (hoid : HasOid a)
    (has : as.ProtectsOnly a) (hbs : bs.ProtectsOnly a)
    (h : as.without signerTypes = bs.without signerTypes) : Alike p now true c a as bs := by
  have hcontent : Oid.contentType ∉ signerTypes := by decide
  have hdigest : Oid.messageDigest ∉ signerTypes := by decide
  constructor
  · rw [checkAttributes, checkPresentable, checkContentType_congr (find?_eq_of_without hcontent h),
      checkMessageDigest_congr (find?_eq_of_without hdigest h), checkTime_of_relaxed hrelaxed,
      has.check, checkAttributes, checkPresentable, checkTime_of_relaxed hrelaxed, hbs.check]
  · obtain ⟨i, hi⟩ := exists_algorithmIdentifier_iff.mpr hoid
    have hadvance : (advance p c a i as).Perm (advance p c a i bs) := by
      have happly : (Exchange.advance p c a i).apply as = (Exchange.advance p c a i).apply bs :=
        congrArg ((Exchange.advance p c a i).new ++ ·) h
      exact (advance_perm_of_count_le has.single).trans
        (happly ▸ (advance_perm_of_count_le hbs.single).symm)
    rw [build, build, if_pos rfl, if_pos rfl, identifierOf_eq_ok_iff.mpr hi]
    exact congrArg Except.ok (Attributes.toDer_perm hadvance)

/-- Under a relaxed policy, two advanced requests get the same answer if they list the same
attributes but for times of signing, references to a certificate, and a protection of the
algorithm. -/
theorem prepare_eq_of_without {r s : Request} (hrelaxed : p.strict = false) (hoid : HasOid a)
    (has : Lists r as) (hbs : Lists s bs) (hr : r.profile.isAdvanced = true)
    (hs : s.profile.isAdvanced = true) (htype : s.type = r.type) (hrule : s.rule = r.rule)
    (hprotection : as.ProtectsOnly a) (hprotection' : bs.ProtectsOnly a)
    (h : as.without signerTypes = bs.without signerTypes) :
    prepare p now s c a = prepare p now r c a := by
  have halike : Alike p now r.profile.isAdvanced c a as bs := by
    rw [hr]
    exact hprotection.alike hrelaxed hoid hprotection' h
  exact halike.prepare_eq has hbs htype hrule (hs.trans hr.symm)

end Replaced

/-- The protection of ECDSA with SHA-256, with parameters that the signer leaves out. -/
def parameterProtection : Protection :=
  ⟨.withNull Oid.sha256, some (.withNull (Oid.ecdsaWithSha2 2))⟩

/-- The assorted attributes with other claims of the client among them. -/
def claimingAttributes : Attributes :=
  [.of Oid.signingTime [[4, 1, 9]], parameterProtection.toAttribute,
    .of Oid.contentType [Der.oid Oid.idData], .of Oid.signingTime [],
    .of Oid.signingCertificateV2 [Der.null], .of Oid.messageDigest [[4, 1, 7]]]

/-- The advanced request with these attributes, in this order. -/
def claimingRequest : Request :=
  ⟨some .pdf, some (Der.element Der.Tag.set claimingAttributes.encodings.flatten), .epes, none,
    none⟩

theorem claimingAttributes_protectsOnly : claimingAttributes.ProtectsOnly ecdsaSha256 := by
  refine ⟨by decide +kernel, fun b hb htype => ?_⟩
  have honly : ∀ b ∈ claimingAttributes, b.type = Oid.algorithmProtection →
      b = parameterProtection.toAttribute := by decide +kernel
  rw [honly b hb htype]
  exact ⟨parameterProtection.toDer, rfl, .bare (Oid.ecdsaWithSha2 2), parameterProtection,
    .withNull (Oid.ecdsaWithSha2 2), by decide +kernel, by decide +kernel, rfl, rfl, rfl⟩

/-- For example, these claims change nothing in what is signed for the assorted attributes. -/
theorem prepare_eq_of_without_claiming :
    ∃ out, prepare {} ⟨1654724214, 0, by decide⟩ assortedRequest shortCertificate ecdsaSha256
        = .ok out ∧
      prepare {} ⟨1654724214, 0, by decide⟩ claimingRequest shortCertificate ecdsaSha256
        = .ok out := by
  have hlists : Lists assortedRequest assortedAttributes := ⟨_, rfl, ofDer_assorted⟩
  have hclaiming : Lists claimingRequest claimingAttributes := ⟨_, rfl, by decide +kernel⟩
  have hnone : ∀ b ∈ assortedAttributes, b.type ≠ Oid.algorithmProtection := by decide +kernel
  have hassorted : assortedAttributes.ProtectsOnly ecdsaSha256 :=
    ⟨by decide +kernel, fun b hb htype => absurd htype (hnone b hb)⟩
  have hoid : HasOid ecdsaSha256 := ⟨_, Oid.ecdsaWithSha2 2, rfl, by decide +kernel⟩
  have hsame : assortedAttributes.without signerTypes = claimingAttributes.without signerTypes := by
    decide +kernel
  obtain ⟨out, h, -⟩ := exists_prepare_assorted ecdsaSha256 (List.mem_cons_self ..)
  exact ⟨out, h, (prepare_eq_of_without rfl hoid hlists hclaiming rfl rfl rfl rfl hassorted
    claimingAttributes_protectsOnly hsame).trans h⟩

end Presign.Cms

import Mathlib.Data.List.Perm.Basic
import Presign.Cms.Preparation
import Presign.Proofs.AlgorithmIdentifier
import Presign.Proofs.Certificate
import Presign.Proofs.Except
import Presign.Proofs.Octets
import Presign.Proofs.Policy

/-!
# The set that is signed

What the prepared data of a PDF signature consists of.  It is one encoded set
in ascending order, and its elements are the encodings of the request but for
those that the signer replaces.  Elements are counted with multiplicity, so
two attributes with one encoding stay two.

* Without an advanced signature and without a reference to a certificate, the
  elements are those of the request.
* Without an advanced signature but with a reference to a certificate, one new
  reference stands for all old ones.
* In an advanced signature the times of signing go as well, and the canonical
  protection stands for the first one of the request, if there is one.

`prepare_isSetOf` says this of every request that is granted.
-/

namespace Presign

/-- Octets that are the set of some elements, in ascending order. -/
def Der.IsSetOf (bs : Octets) (elements : List Octets) : Prop :=
  ∃ ascending : List Octets, ascending.Pairwise (· ≤ ·) ∧ ascending.Perm elements ∧
    bs = Der.element Der.Tag.set ascending.flatten

theorem Der.isSetOf_setOf (elements : List Octets) : IsSetOf (setOf elements) elements :=
  ⟨_, Octets.pairwise_mergeSort elements, List.mergeSort_perm elements _, rfl⟩

theorem Der.IsSetOf.perm {bs : Octets} {es fs : List Octets} (h : IsSetOf bs es)
    (hp : es.Perm fs) : IsSetOf bs fs := by
  obtain ⟨ascending, hs, he, hb⟩ := h
  exact ⟨ascending, hs, he.trans hp, hb⟩

namespace Cms

/-! ## Reading keeps encodings -/

/-- The encodings of attributes. -/
def Attributes.encodings (as : Attributes) : List Octets := as.map Attribute.encoded

theorem Attribute.encoded_of_ofDer {bs : Octets} {a : Attribute} (h : Attribute.ofDer bs = .ok a) :
    a.encoded = bs := by
  rw [Attribute.ofDer, Except.bind_eq_ok] at h
  obtain ⟨elements, -, h⟩ := h
  split at h
  · rw [Except.bind_eq_ok] at h
    obtain ⟨type, -, h⟩ := h
    rw [Except.bind_eq_ok] at h
    obtain ⟨values, -, h⟩ := h
    cases h
    rfl
  · cases h

theorem encodings_of_mapM {bss : List Octets} {as : Attributes}
    (h : bss.mapM Attribute.ofDer = .ok as) : as.encodings = bss := by
  have hencoded : List.Forall₂ (fun a bs => a.encoded = bs) as bss :=
    ((Except.mapM_eq_ok_iff fun _ _ _ => Iff.rfl).mp h |>.imp
      fun _ _ => Attribute.encoded_of_ofDer).flip
  rwa [← List.forall₂_map_left_iff, List.forall₂_eq_eq_eq] at hencoded

/-- The attributes that are read have the elements of the set as their
encodings. -/
theorem Attributes.readSet_of_ofDer {bs : Octets} {as : Attributes}
    (h : Attributes.ofDer bs = .ok as) : Der.readSet "signed attributes" bs = .ok as.encodings := by
  rw [Attributes.ofDer, Except.bind_eq_ok] at h
  obtain ⟨elements, he, h⟩ := h
  rw [he, encodings_of_mapM h]

theorem Attributes.isSetOf_toDer (as : Attributes) : Der.IsSetOf as.toDer as.encodings :=
  Der.isSetOf_setOf _

/-! ## What replaces what -/

/-- Putting an attribute in place of the first one of its type. -/
theorem Attributes.put_perm (a : Attribute) (as : Attributes) :
    (Attributes.put a as).Perm (a :: as.eraseP fun b => b.type = a.type) := by
  induction as with
  | nil => rw [Attributes.put]; exact List.Perm.refl _
  | cons b bs ih =>
      rw [Attributes.put]
      by_cases h : b.type = a.type
      · rw [if_pos h, List.eraseP_cons_of_pos (by simpa using h)]
      · rw [if_neg h, List.eraseP_cons_of_neg (by simpa using h)]
        exact (ih.cons b).trans (List.Perm.swap a b _)

theorem Attributes.without_cons {a : Attribute} {types : List Oid} (h : a.type ∉ types)
    (as : Attributes) : Attributes.without (a :: as) types = a :: as.without types := by
  unfold Attributes.without
  rw [List.filter_cons_of_pos]
  simpa using h

theorem Attributes.without_without (as : Attributes) (types types' : List Oid) :
    (as.without types).without types' = as.without (types ++ types') := by
  unfold Attributes.without
  rw [List.filter_filter]
  congr 1
  funext a
  simp [Bool.and_comm]

/-- Taking away the first attribute of a type does not interfere with taking
away all attributes of other types. -/
theorem Attributes.without_eraseP {type : Oid} {types : List Oid} (h : type ∉ types)
    (as : Attributes) :
    Attributes.without (as.eraseP fun b => b.type = type) types
      = (as.without types).eraseP fun b => b.type = type := by
  induction as with
  | nil => rfl
  | cons a as ih =>
      by_cases ht : a.type = type
      · rw [List.eraseP_cons_of_pos (by simpa using ht), without_cons (ht ▸ h),
          List.eraseP_cons_of_pos (by simpa using ht)]
      · rw [List.eraseP_cons_of_neg (by simpa using ht)]
        by_cases hm : a.type ∈ types
        · have hskip (bs : Attributes) : Attributes.without (a :: bs) types = bs.without types := by
            unfold Attributes.without
            rw [List.filter_cons_of_neg (by simpa using hm)]
          rw [hskip, hskip]
          exact ih
        · rw [without_cons hm, without_cons hm, List.eraseP_cons_of_neg (by simpa using ht), ih]

section

variable (p : Policy) (c : Certificate) (a : SignatureAlgorithm)

/-- The new reference to the certificate of the signer. -/
def freshReference : Attribute :=
  SigningCertificate.attributeFor a.digest c p.includeIssuerSerial

theorem withCertificate_perm (as : Attributes) :
    (withCertificate p c a as).Perm
      (freshReference p c a :: as.without SigningCertificate.types) :=
  List.perm_append_singleton _ _

/-- The types that an advanced signature does not keep from its request. -/
def replacedTypes : List Oid := Oid.signingTime :: SigningCertificate.types

theorem advance_perm (i : AlgorithmIdentifier) (as : Attributes) :
    (advance p c a i as).Perm
      (freshReference p c a :: (Protection.of a i).toAttribute ::
        (as.without replacedTypes).eraseP fun b => b.type = Oid.algorithmProtection) := by
  have hput := Attributes.put_perm (Protection.of a i).toAttribute (as.without [Oid.signingTime])
  have hkeep : Oid.algorithmProtection ∉ SigningCertificate.types := by decide
  have hwithout := Attributes.without_eraseP hkeep (as.without [Oid.signingTime])
  rw [Attributes.without_without] at hwithout
  refine (withCertificate_perm p c a _).trans (List.Perm.cons _ ((hput.filter _).trans ?_))
  refine List.Perm.of_eq ((Attributes.without_cons hkeep _).trans ?_)
  exact congrArg (_ :: ·) hwithout

theorem hasCertificate_eq_false {as : Attributes} :
    hasCertificate as = false ↔ ∀ b ∈ as, b.type ∉ SigningCertificate.types := by
  simp [hasCertificate]

end

/-! ## The whole preparation -/

section

variable {p : Policy} {now : Time.Instant} {r : Request} {a : SignatureAlgorithm}

/-- A request passes if its attributes are read and pass each check. -/
theorem check_eq_ok_iff {checked : Checked} :
    check p now r a = .ok checked
      ↔ r.type = some checked.type ∧ ∃ data, r.data = some data ∧
        Attributes.ofDer data = .ok checked.attributes ∧
        checkContentType checked.attributes = .ok () ∧
        checkMessageDigest checked.attributes = .ok () ∧
        checkTime p now r.profile.isAdvanced checked.attributes = .ok () ∧
        checkProtection a checked.attributes = .ok () := by
  simp only [check, Except.bind_eq_ok, Except.mapError_eq_ok, Request.essentials_eq_ok_iff]
  constructor
  · rintro ⟨e, ⟨hdata, htype⟩, as, has, ⟨⟩, hcontent, ⟨⟩, hdigest, ⟨⟩, htime, ⟨⟩, hprotection, h⟩
    cases h
    exact ⟨htype, e.data, hdata, has, hcontent, hdigest, htime, hprotection⟩
  · rintro ⟨htype, data, hdata, has, hcontent, hdigest, htime, hprotection⟩
    exact ⟨⟨data, checked.type⟩, ⟨hdata, htype⟩, _, has, (), hcontent, (), hdigest, (), htime, (),
      hprotection, rfl⟩

end

/-- The attributes of a granted request, the checks that they have passed, and the
attributes that are signed. -/
structure Granted (p : Policy) (now : Time.Instant) (r : Request) (c : Certificate)
    (a : SignatureAlgorithm) (out : Prepared) (data : Octets) (as built : Attributes) : Prop where
  data_eq : r.data = some data
  read : Attributes.ofDer data = .ok as
  contentType : checkContentType as = .ok ()
  messageDigest : checkMessageDigest as = .ok ()
  time : checkTime p now r.profile.isAdvanced as = .ok ()
  protection : checkProtection a as = .ok ()
  build : build p r.profile.isAdvanced c a as = .ok built
  out_eq : out.data = built.toDer

/-- A request is granted if it is one for a PDF signature under a supported rule, its
attributes pass, and the attributes to sign can be made. -/
theorem prepare_eq_ok_iff {p : Policy} {now : Time.Instant} {r : Request} {c : Certificate}
    {a : SignatureAlgorithm} {out : Prepared} :
    prepare p now r c a = .ok out
      ↔ r.type = some .pdf ∧ (∀ uri ∈ r.rule, uri ∈ p.supportedRules) ∧
        out.rule = r.rule ∧ out.adesObject = none ∧
        ∃ data as built, Granted p now r c a out data as built := by
  rw [prepare, Except.bind_eq_ok]
  constructor
  · rintro ⟨checked, hcheck, h⟩
    obtain ⟨⟨⟩, hallow, h⟩ := Except.bind_eq_ok.mp h
    obtain ⟨built, hbuild, h⟩ := Except.bind_eq_ok.mp h
    cases h
    rw [Except.mapError_eq_ok, check_eq_ok_iff] at hcheck
    obtain ⟨htype, data, hdata, has, hcontent, hdigest, htime, hprotection⟩ := hcheck
    obtain ⟨hrule, hpdf⟩ := Policy.allow_eq_ok_iff.mp hallow
    exact ⟨hpdf ▸ htype, hrule, rfl, rfl, data, checked.attributes, built,
      hdata, has, hcontent, hdigest, htime, hprotection, hbuild, rfl⟩
  · rintro ⟨htype, hrule, houtRule, hobject, data, as, built, h⟩
    refine ⟨⟨.pdf, as⟩, Except.mapError_eq_ok.mpr (check_eq_ok_iff.mpr ⟨htype, data, h.data_eq,
      h.read, h.contentType, h.messageDigest, h.time, h.protection⟩), ?_⟩
    refine Except.bind_eq_ok.mpr ⟨(), Policy.allow_eq_ok_iff.mpr ⟨hrule, rfl⟩, ?_⟩
    refine Except.bind_eq_ok.mpr ⟨built, h.build, ?_⟩
    obtain ⟨outData, outRule, outObject⟩ := out
    cases houtRule
    cases hobject
    cases h.out_eq
    rfl

theorem exists_granted {p : Policy} {now : Time.Instant} {r : Request} {c : Certificate}
    {a : SignatureAlgorithm} {out : Prepared} (h : prepare p now r c a = .ok out) :
    ∃ data as built, Granted p now r c a out data as built :=
  (prepare_eq_ok_iff.mp h).2.2.2.2

/-- A granted request comes from attributes that were read, and what is signed
was built from them. -/
theorem build_of_prepare {p : Policy} {now : Time.Instant} {r : Request} {c : Certificate}
    {a : SignatureAlgorithm} {out : Prepared} (h : prepare p now r c a = .ok out) :
    ∃ data as built, r.data = some data ∧ Attributes.ofDer data = .ok as ∧
      build p r.profile.isAdvanced c a as = .ok built ∧ out.data = built.toDer := by
  obtain ⟨data, as, built, hgranted⟩ := exists_granted h
  exact ⟨data, as, built, hgranted.data_eq, hgranted.read, hgranted.build, hgranted.out_eq⟩

/-- Every granted request has exactly these encodings signed, in ascending
order and with multiplicity. -/
theorem prepare_isSetOf {p : Policy} {now : Time.Instant} {r : Request} {c : Certificate}
    {a : SignatureAlgorithm} {out : Prepared} (h : prepare p now r c a = .ok out) :
    ∃ data as, r.data = some data ∧ Attributes.ofDer data = .ok as ∧
      Der.readSet "signed attributes" data = .ok as.encodings ∧
      (r.profile.isAdvanced = false → (∀ b ∈ as, b.type ∉ SigningCertificate.types) →
        Der.IsSetOf out.data as.encodings) ∧
      (r.profile.isAdvanced = false → (∃ b ∈ as, b.type ∈ SigningCertificate.types) →
        Der.IsSetOf out.data ((freshReference p c a).encoded ::
          (as.without SigningCertificate.types).encodings)) ∧
      (r.profile.isAdvanced = true → ∃ i, a.algorithmIdentifier? = some i ∧
        Der.IsSetOf out.data ((freshReference p c a).encoded ::
          (Protection.of a i).toAttribute.encoded ::
          Attributes.encodings ((as.without replacedTypes).eraseP
            fun b => b.type = Oid.algorithmProtection))) := by
  obtain ⟨data, as, built, hd, has, hb, ho⟩ := build_of_prepare h
  have hset : Der.IsSetOf out.data built.encodings := ho ▸ built.isSetOf_toDer
  refine ⟨data, as, hd, has, Attributes.readSet_of_ofDer has, ?_, ?_, ?_⟩
  · intro hadv hnone
    rw [build, hadv, if_neg Bool.false_ne_true,
      if_neg (by rw [hasCertificate_eq_false.mpr hnone]; exact Bool.false_ne_true)] at hb
    cases hb
    exact hset
  · intro hadv ⟨b, hmem, htype⟩
    have hhas : hasCertificate as = true := by
      cases hh : hasCertificate as with
      | true => rfl
      | false => exact absurd htype (hasCertificate_eq_false.mp hh b hmem)
    rw [build, hadv, if_neg Bool.false_ne_true, if_pos hhas] at hb
    cases hb
    exact hset.perm ((withCertificate_perm p c a as).map Attribute.encoded)
  · intro hadv
    rw [build, hadv, if_pos rfl, Except.map_eq_ok] at hb
    obtain ⟨i, hi, hb⟩ := hb
    refine ⟨i, ?_, ?_⟩
    · unfold identifierOf at hi
      split at hi
      · rename_i j hj
        cases hi
        exact hj
      · cases hi
    · cases hb
      exact hset.perm ((advance_perm p c a i as).map Attribute.encoded)

/-- An advanced request with two equal attributes, a time of signing and both
forms of the reference to a certificate. -/
def repeatingAttributes : Attributes :=
  [.of Oid.contentType [Der.oid Oid.idData], .of (Oid.pkcs9 [99]) [[4, 0]],
    .of Oid.signingCertificate [Der.null], .of Oid.signingTime [Der.null],
    .of (Oid.pkcs9 [99]) [[4, 0]], .of Oid.signingCertificateV2 [Der.null],
    .of Oid.messageDigest [[4, 1, 7]]]

/-- The encoded attributes, in the order in which the client lists them. -/
def repeatingData : Octets := Der.element Der.Tag.set repeatingAttributes.encodings.flatten

/-- The request with these attributes. -/
def repeatingRequest : Request := ⟨some .pdf, some repeatingData, .bes, none, none⟩

/-- The two equal attributes stay two, and of the others only two are left. -/
theorem prepare_isSetOf_repeating :
    ∃ out, prepare {} ⟨1654724214, 0, by decide⟩ repeatingRequest shortCertificate ecdsaSha256
        = .ok out ∧
      Der.IsSetOf out.data
        [(freshReference {} shortCertificate ecdsaSha256).encoded,
          (Protection.of ecdsaSha256 (.bare (Oid.ecdsaWithSha2 2))).toAttribute.encoded,
          (Attribute.of Oid.contentType [Der.oid Oid.idData]).encoded,
          (Attribute.of (Oid.pkcs9 [99]) [[4, 0]]).encoded,
          (Attribute.of (Oid.pkcs9 [99]) [[4, 0]]).encoded,
          (Attribute.of Oid.messageDigest [[4, 1, 7]]).encoded] := by
  have hok : (prepare {} ⟨1654724214, 0, by decide⟩ repeatingRequest shortCertificate
      ecdsaSha256).isOk = true := by decide +kernel
  have hread : Attributes.ofDer repeatingData = .ok repeatingAttributes := by decide +kernel
  have hid : ecdsaSha256.algorithmIdentifier? = some (.bare (Oid.ecdsaWithSha2 2)) := by
    decide +kernel
  cases h : prepare {} ⟨1654724214, 0, by decide⟩ repeatingRequest shortCertificate ecdsaSha256 with
  | error e => rw [h] at hok; cases hok
  | ok out =>
      obtain ⟨data, as, hd, has, -, -, -, hadv⟩ := prepare_isSetOf h
      obtain ⟨i, hi, hset⟩ := hadv rfl
      cases hd
      rw [hread] at has
      cases has
      rw [hid] at hi
      cases hi
      exact ⟨out, rfl, hset⟩

end Cms

end Presign

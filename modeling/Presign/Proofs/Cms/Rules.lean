import Presign.Proofs.Cms.Checks
import Presign.Proofs.Cms.Encoding

/-!
# Which values are checked

Three types of attributes have a rule for their values: a content type is plain
data, a protection names the algorithms of the signature, and a time of signing lies
in the window, unless the signature is an advanced one.

The checks look at the first value of the first attribute of a type.  The set that is
signed keeps the other values and attributes of the request as they are, and puts
them in an order of its own.  So it obeys the rules exactly if they do
(`prepare_obeys_iff`).  In an advanced signature the first protection does not count,
since a new one stands in its place.  The new one obeys if the object identifier of
the algorithm is told by its content.
-/

namespace Presign.Cms

/-! ## Rules -/

/-- A value that obeys the rule for its type. -/
structure ObeysRule (p : Policy) (now : Time.Instant) (advanced : Bool) (a : SignatureAlgorithm)
    (type : Oid) (value : Octets) : Prop where
  contentType : type = Oid.contentType → Der.readOid "content type" value = .ok Oid.idData
  protection : type = Oid.algorithmProtection → Protects a value
  time : advanced = false → type = Oid.signingTime → IsTimely p now value

/-- Attributes all of whose values satisfy a condition. -/
def Attributes.AllValues (rule : Oid → Octets → Prop) (as : Attributes) : Prop :=
  ∀ b ∈ as, ∀ v ∈ b.values, rule b.type v

section AllValues

variable {rule : Oid → Octets → Prop}

theorem Attributes.allValues_cons {b : Attribute} {as : Attributes} :
    Attributes.AllValues rule (b :: as) ↔ (∀ v ∈ b.values, rule b.type v) ∧ as.AllValues rule :=
  List.forall_mem_cons

theorem Attributes.allValues_perm {as bs : Attributes} (h : as.Perm bs) :
    as.AllValues rule ↔ bs.AllValues rule := by
  unfold Attributes.AllValues
  simp [h.mem_iff]

/-- Attributes whose types have no rule can be left out. -/
theorem Attributes.allValues_without {types : List Oid} (h : ∀ type ∈ types, ∀ v, rule type v)
    (as : Attributes) : (as.without types).AllValues rule ↔ as.AllValues rule := by
  constructor
  · intro hkept b hb v hv
    by_cases ht : b.type ∈ types
    · exact h _ ht v
    · exact hkept b (List.mem_filter.mpr ⟨hb, by simpa using ht⟩) v hv
  · intro hall b hb
    exact hall b (List.mem_filter.mp hb).1

end AllValues

variable {p : Policy} {now : Time.Instant} {advanced : Bool} {a : SignatureAlgorithm}

/-- The types of attributes that have a rule. -/
def ruledTypes : List Oid := [Oid.contentType, Oid.algorithmProtection, Oid.signingTime]

theorem obeysRule_of_not_ruled {type : Oid} (h : type ∉ ruledTypes) (v : Octets) :
    ObeysRule p now advanced a type v := by
  simp only [ruledTypes, List.mem_cons, List.not_mem_nil, or_false, not_or] at h
  obtain ⟨hcontent, hprotection, htime⟩ := h
  exact ⟨fun he => absurd he hcontent, fun he => absurd he hprotection,
    fun _ he => absurd he htime⟩

theorem not_ruled_of_certificate : ∀ type ∈ SigningCertificate.types, type ∉ ruledTypes := by
  decide

/-- An advanced signature has no rule for the time of signing, which it loses. -/
theorem obeysRule_time_of_advanced (v : Octets) : ObeysRule p now true a Oid.signingTime v :=
  ⟨fun he => absurd he (by decide), fun he => absurd he (by decide), fun he => by cases he⟩

theorem obeysRule_contentType_iff {v : Octets} :
    ObeysRule p now advanced a Oid.contentType v ↔ Der.readOid "content type" v = .ok Oid.idData :=
  ⟨fun h => h.contentType rfl, fun h => ⟨fun _ => h, fun he => absurd he (by decide),
    fun _ he => absurd he (by decide)⟩⟩

theorem obeysRule_protection_iff {v : Octets} :
    ObeysRule p now advanced a Oid.algorithmProtection v ↔ Protects a v :=
  ⟨fun h => h.protection rfl, fun h => ⟨fun he => absurd he (by decide), fun _ => h,
    fun _ he => absurd he (by decide)⟩⟩

theorem obeysRule_time_iff {v : Octets} :
    ObeysRule p now false a Oid.signingTime v ↔ IsTimely p now v :=
  ⟨fun h => h.time rfl rfl, fun h => ⟨fun he => absurd he (by decide),
    fun he => absurd he (by decide), fun _ _ => h⟩⟩

/-! ## What is checked -/

theorem firstValue_of_checkContentType {as : Attributes} (h : checkContentType as = .ok ()) :
    as.FirstValue (ObeysRule p now advanced a) Oid.contentType :=
  (checkContentType_eq_ok_iff.mp h).imp fun _ => obeysRule_contentType_iff.mpr

theorem firstValue_of_checkTime {as : Attributes} (h : checkTime p now false as = .ok ()) :
    as.FirstValue (ObeysRule p now false a) Oid.signingTime :=
  (checkTime_eq_ok_iff.mp h).imp fun _ => obeysRule_time_iff.mpr

theorem firstValue_of_checkProtection {as : Attributes} {b : Attribute}
    (h : checkProtection a as = .ok ()) (hb : as.find? Oid.algorithmProtection = some b) :
    as.FirstValue (ObeysRule p now advanced a) Oid.algorithmProtection := by
  have hhas : as.Has Oid.algorithmProtection := Attributes.find?_isSome_iff.mp (by rw [hb]; rfl)
  exact (checkProtection_eq_ok_iff.mp h hhas).imp fun _ => obeysRule_protection_iff.mpr

/-! ## What is signed -/

/-- The attributes of a request whose values are signed, apart from those that have
no rule: all, but for the first protection in an advanced signature. -/
def Attributes.kept (advanced : Bool) (as : Attributes) : Attributes :=
  if advanced then as.eraseP fun b => b.type = Oid.algorithmProtection else as

/-- An algorithm whose object identifier is told by its content. -/
def HasReadableOid (a : SignatureAlgorithm) : Prop :=
  ∃ i, a.algorithmIdentifier? = some i ∧ Oid.ofContent? i.algorithm.content = some i.algorithm

/-- A new protection protects an algorithm with the same digest method, if the content of
the object identifier that it is made for tells the one of the algorithm. -/
theorem protects_of_iff {b : SignatureAlgorithm} {i j : AlgorithmIdentifier}
    (hi : a.algorithmIdentifier? = some i) (hj : b.algorithmIdentifier? = some j) :
    Protects b (Protection.of a i).toDer
      ↔ (Protection.fields a.digest.algorithmIdentifier i).flatten.length < 2 ^ 32 ∧
        a.digest = b.digest ∧ Oid.ofContent? i.algorithm.content = some j.algorithm := by
  have hdigest : a.digest.algorithmIdentifier.algorithm = a.digest.oid := by
    cases a.digest <;> rfl
  constructor
  · rintro ⟨j', q, s, hj', hq, hmethod, hs, hsame⟩
    cases hj.symm.trans hj'
    obtain ⟨hsize, hqdigest, o, ho, hsignature⟩ := (Protection.ofDer_of_iff hi).mp hq
    cases hs.symm.trans hsignature
    rw [hqdigest, hdigest, DigestMethod.oid_inj] at hmethod
    exact ⟨hsize, hmethod, hsame ▸ ho⟩
  · rintro ⟨hsize, hmethod, ho⟩
    refine ⟨j, ⟨a.digest.algorithmIdentifier, some ⟨j.algorithm, i.parameters⟩⟩, _, hj, ?_, ?_, rfl,
      rfl⟩
    · exact (Protection.ofDer_of_iff hi).mpr ⟨hsize, rfl, j.algorithm, ho, rfl⟩
    · rw [hdigest, hmethod]

/-- A new protection protects the algorithm that it is made for exactly if the object
identifier of the algorithm is told by its content. -/
theorem protects_toDer_iff {i : AlgorithmIdentifier} (hi : a.algorithmIdentifier? = some i)
    (hsize : (Protection.of a i).toDer.length < 2 ^ 32) :
    Protects a (Protection.of a i).toDer ↔ HasReadableOid a := by
  have hcontent : (Protection.fields a.digest.algorithmIdentifier i).flatten.length < 2 ^ 32 :=
    Nat.lt_trans (Der.length_lt_element _ _) hsize
  rw [protects_of_iff hi hi, and_iff_right hcontent, and_iff_right rfl]
  constructor
  · intro ho
    exact ⟨i, hi, ho⟩
  · rintro ⟨j, hj, ho⟩
    cases hi.symm.trans hj
    exact ho

theorem mem_types_freshReference (p : Policy) (c : Certificate) (a : SignatureAlgorithm) :
    (freshReference p c a).type ∈ SigningCertificate.types := by
  change SigningCertificate.typeFor a.digest ∈ SigningCertificate.types
  unfold SigningCertificate.typeFor
  split
  · decide
  · decide

theorem isExact_freshReference {c : Certificate}
    (hsize : (freshReference p c a).encoded.length < 2 ^ 32) : (freshReference p c a).IsExact := by
  have htype : ∀ type ∈ SigningCertificate.types, Oid.ofContent? type.content = some type := by
    decide +kernel
  have hvalue := Nat.lt_trans (Attribute.length_value_lt _ _) hsize
  exact Attribute.isExact_of (htype _ (mem_types_freshReference p c a))
    (Der.isElement_sequence hvalue) hsize

theorem isExact_toAttribute {q : Protection} (hsize : q.toAttribute.encoded.length < 2 ^ 32) :
    q.toAttribute.IsExact :=
  Attribute.isExact_of (by decide +kernel)
    (Der.isElement_sequence (Nat.lt_trans (Attribute.length_value_lt _ _) hsize)) hsize

/-- What is signed of the attributes of a request. -/
theorem build_cases {c : Certificate} {as built : Attributes}
    (h : build p advanced c a as = .ok built) :
    (advanced = false ∧ built = as) ∨ (advanced = false ∧ built = withCertificate p c a as) ∨
      (advanced = true ∧ ∃ i, a.algorithmIdentifier? = some i ∧ built = advance p c a i as) := by
  unfold build at h
  split at h
  next hadvanced =>
    obtain ⟨i, hi, rfl⟩ := Except.map_eq_ok.mp h
    exact Or.inr (Or.inr ⟨hadvanced, i, identifierOf_eq_ok_iff.mp hi, rfl⟩)
  next hadvanced =>
    rw [Bool.not_eq_true] at hadvanced
    split at h
    next =>
      cases h
      exact Or.inr (Or.inl ⟨hadvanced, rfl⟩)
    next =>
      cases h
      exact Or.inl ⟨hadvanced, rfl⟩

section Build

variable {c : Certificate} {as built : Attributes}

/-- All attributes that are signed are read again as they are. -/
theorem isExact_of_build (h : build p advanced c a as = .ok built) (has : ∀ b ∈ as, b.IsExact)
    (hsize : built.toDer.length < 2 ^ 32) : ∀ b ∈ built, b.IsExact := by
  intro b hb
  have hlength := Nat.lt_trans (Attributes.length_encoded_lt hb) hsize
  rcases build_cases h with ⟨-, rfl⟩ | ⟨-, rfl⟩ | ⟨-, i, -, rfl⟩
  · exact has b hb
  · rcases List.mem_cons.mp ((withCertificate_perm p c a as).mem_iff.mp hb) with rfl | hb
    · exact isExact_freshReference hlength
    · exact has b (List.mem_filter.mp hb).1
  · rcases List.mem_cons.mp ((advance_perm p c a i as).mem_iff.mp hb) with rfl | hb
    · exact isExact_freshReference hlength
    · rcases List.mem_cons.mp hb with rfl | hb
      · exact isExact_toAttribute hlength
      · exact has b (List.mem_filter.mp (List.mem_of_mem_eraseP hb)).1

/-- The reference to the certificate has no rule. -/
theorem allValues_withCertificate :
    (withCertificate p c a as).AllValues (ObeysRule p now advanced a)
      ↔ as.AllValues (ObeysRule p now advanced a) := by
  have hfresh : ∀ v ∈ (freshReference p c a).values,
      ObeysRule p now advanced a (freshReference p c a).type v :=
    fun v _ => obeysRule_of_not_ruled (not_ruled_of_certificate _ (mem_types_freshReference p c a)) v
  rw [Attributes.allValues_perm (withCertificate_perm p c a as), Attributes.allValues_cons,
    Attributes.allValues_without fun _ ht v =>
      obeysRule_of_not_ruled (not_ruled_of_certificate _ ht) v, and_iff_right hfresh]

/-- In an advanced signature the new protection and all attributes but the first
protection of the request have a rule. -/
theorem allValues_advance {i : AlgorithmIdentifier} :
    (advance p c a i as).AllValues (ObeysRule p now true a)
      ↔ Protects a (Protection.of a i).toDer ∧
        (as.kept true).AllValues (ObeysRule p now true a) := by
  have htime : ∀ type ∈ [Oid.signingTime], ∀ v, ObeysRule p now true a type v := by
    intro type ht v
    rw [List.mem_singleton.mp ht]
    exact obeysRule_time_of_advanced v
  have hnew : (∀ v ∈ (Protection.of a i).toAttribute.values,
      ObeysRule p now true a Oid.algorithmProtection v) ↔ Protects a (Protection.of a i).toDer := by
    simp [Protection.toAttribute, Attribute.of, obeysRule_protection_iff]
  have hkeep : Oid.algorithmProtection ∉ [Oid.signingTime] := by decide
  have herase := Attributes.without_eraseP hkeep as
  rw [advance, allValues_withCertificate, Attributes.allValues_perm (Attributes.put_perm _ _),
    Attributes.allValues_cons]
  refine and_congr hnew ?_
  change Attributes.AllValues _ ((as.without [Oid.signingTime]).eraseP
    fun b => b.type = Oid.algorithmProtection) ↔ _
  rw [← herase, Attributes.allValues_without htime]
  rfl

/-- What is signed obeys the rules exactly if what is kept of the request does, and
the algorithm has an identifier that is read again, if it is written. -/
theorem allValues_build_iff (h : build p advanced c a as = .ok built)
    (hsize : built.toDer.length < 2 ^ 32) :
    built.AllValues (ObeysRule p now advanced a)
      ↔ (as.kept advanced).AllValues (ObeysRule p now advanced a) ∧
        (advanced = true → HasReadableOid a) := by
  rcases build_cases h with ⟨hadvanced, rfl⟩ | ⟨hadvanced, rfl⟩ | ⟨hadvanced, i, hi, rfl⟩
  · simp [hadvanced, Attributes.kept]
  · rw [allValues_withCertificate]
    simp [hadvanced, Attributes.kept]
  · subst hadvanced
    have hmem : (Protection.of a i).toAttribute ∈ advance p c a i as :=
      (advance_perm p c a i as).mem_iff.mpr (by simp)
    have hprotection := Nat.lt_trans (Protection.length_toDer_lt hmem) hsize
    rw [allValues_advance, protects_toDer_iff hi hprotection, and_comm]
    simp

end Build

/-- A granted request has its first content type, its first time of signing and its
first protection checked, each by its first value.  What is signed is read again, if it
has a size that can be read, and all of its values obey the rules exactly if those do
that are kept of the request. -/
theorem prepare_obeys_iff {p : Policy} {now : Time.Instant} {r : Request} {c : Certificate}
    {a : SignatureAlgorithm} {out : Prepared} (h : prepare p now r c a = .ok out)
    (hsize : out.data.length < 2 ^ 32) :
    ∃ data as reread, r.data = some data ∧ Attributes.ofDer data = .ok as ∧
      Attributes.ofDer out.data = .ok reread ∧
      as.FirstValue (ObeysRule p now r.profile.isAdvanced a) Oid.contentType ∧
      (r.profile.isAdvanced = false → as.FirstValue (ObeysRule p now false a) Oid.signingTime) ∧
      (as.find? Oid.algorithmProtection ≠ none →
        as.FirstValue (ObeysRule p now r.profile.isAdvanced a) Oid.algorithmProtection) ∧
      (reread.AllValues (ObeysRule p now r.profile.isAdvanced a)
        ↔ (as.kept r.profile.isAdvanced).AllValues (ObeysRule p now r.profile.isAdvanced a) ∧
          (r.profile.isAdvanced = true → HasReadableOid a)) := by
  obtain ⟨data, as, built, hgranted⟩ := exists_granted h
  rw [hgranted.out_eq] at hsize ⊢
  have hexact := isExact_of_build hgranted.build (Attributes.isExact_of_ofDer hgranted.read) hsize
  refine ⟨data, as, _, hgranted.data_eq, hgranted.read, Attributes.ofDer_toDer hexact hsize,
    firstValue_of_checkContentType hgranted.contentType, fun hadvanced => ?_, fun hsome => ?_, ?_⟩
  · have htime := hgranted.time
    rw [hadvanced] at htime
    exact firstValue_of_checkTime htime
  · obtain ⟨b, hb⟩ := Option.ne_none_iff_exists'.mp hsome
    exact firstValue_of_checkProtection hgranted.protection hb
  · rw [Attributes.allValues_perm (List.mergeSort_perm _ _)]
    exact allValues_build_iff hgranted.build hsize

theorem allValues_repeating (p : Policy) (now : Time.Instant) :
    (repeatingAttributes.kept true).AllValues (ObeysRule p now true ecdsaSha256) := by
  intro b hb v hv
  refine ⟨fun ht => ?_, fun ht => ?_, fun hadvanced => by cases hadvanced⟩
  · have hall : ∀ b ∈ repeatingAttributes.kept true, b.type = Oid.contentType →
        b.values = [Der.oid Oid.idData] := by decide +kernel
    rw [hall b hb ht, List.mem_singleton] at hv
    rw [hv]
    decide +kernel
  · have hnone : ∀ b ∈ repeatingAttributes.kept true, b.type ≠ Oid.algorithmProtection := by
      decide +kernel
    exact absurd ht (hnone b hb)

/-- For example, all values that are signed for the request with equal attributes obey
the rules. -/
theorem prepare_obeys_repeating :
    ∃ out reread, prepare {} ⟨1654724214, 0, by decide⟩ repeatingRequest shortCertificate
        ecdsaSha256 = .ok out ∧
      Attributes.ofDer out.data = .ok reread ∧
      reread.AllValues (ObeysRule {} ⟨1654724214, 0, by decide⟩ true ecdsaSha256) := by
  have hread : Attributes.ofDer repeatingData = .ok repeatingAttributes := by decide +kernel
  have hok : (prepare {} ⟨1654724214, 0, by decide⟩ repeatingRequest shortCertificate
      ecdsaSha256).isOk = true := by decide +kernel
  have hlength :
      ∀ built ∈ (build {} true shortCertificate ecdsaSha256 repeatingAttributes).toOption,
        (Der.element Der.Tag.set built.encodings.flatten).length < 2 ^ 32 := by decide +kernel
  cases h : prepare {} ⟨1654724214, 0, by decide⟩ repeatingRequest shortCertificate ecdsaSha256 with
  | error e => rw [h] at hok; cases hok
  | ok out =>
      have hsize : out.data.length < 2 ^ 32 := by
        obtain ⟨data, as, built, hgranted⟩ := exists_granted h
        cases hgranted.data_eq
        cases hread.symm.trans hgranted.read
        rw [hgranted.out_eq, Attributes.toDer, Der.length_setOf]
        have hbuild : build {} true shortCertificate ecdsaSha256 repeatingAttributes = .ok built :=
          hgranted.build
        exact hlength built (by rw [hbuild]; rfl)
      obtain ⟨data, as, reread, hd, has, hreread, -, -, -, hiff⟩ := prepare_obeys_iff h hsize
      cases hd
      cases hread.symm.trans has
      exact ⟨out, reread, rfl, hreread, hiff.mpr ⟨allValues_repeating _ _,
        fun _ => ⟨.bare (Oid.ecdsaWithSha2 2), by decide +kernel, by decide +kernel⟩⟩⟩

/-! ## A second protection -/

/-- The protection of SHA-1 and ECDSA with SHA-1. -/
def weakProtection : Protection := ⟨.bare Oid.sha1, some (.bare Oid.ecdsaWithSha1)⟩

/-- Attributes with the protection of the algorithm, and another one behind it. -/
def substitutedAttributes : Attributes :=
  [.of Oid.contentType [Der.oid Oid.idData],
    .of Oid.signingTime [Der.element Der.Tag.utcTime (Text.encode "220608213654Z")],
    (Protection.of ecdsaSha256 (.bare (Oid.ecdsaWithSha2 2))).toAttribute,
    .of Oid.messageDigest [[4, 1, 7]],
    weakProtection.toAttribute]

/-- The request with these attributes, in this order. -/
def substitutedRequest : Request :=
  ⟨some .pdf, some (Der.element Der.Tag.set substitutedAttributes.encodings.flatten), .none, none,
    none⟩

/-- The request is granted, and its weak protection is signed. -/
theorem prepare_substituted :
    ∃ out reread, prepare {} ⟨1654724214, 0, by decide⟩ substitutedRequest shortCertificate
        ecdsaSha256 = .ok out ∧
      Attributes.ofDer out.data = .ok reread ∧ weakProtection.toAttribute ∈ reread ∧
      ¬ reread.AllValues (ObeysRule {} ⟨1654724214, 0, by decide⟩ false ecdsaSha256) := by
  have hok : (prepare {} ⟨1654724214, 0, by decide⟩ substitutedRequest shortCertificate
      ecdsaSha256).isOk = true := by decide +kernel
  have hread : Attributes.ofDer (Der.element Der.Tag.set substitutedAttributes.encodings.flatten)
      = .ok substitutedAttributes := by decide +kernel
  have hbuild : build {} false shortCertificate ecdsaSha256 substitutedAttributes
      = .ok substitutedAttributes := by decide +kernel
  have hsize : substitutedAttributes.toDer.length < 2 ^ 32 := by
    rw [Attributes.toDer, Der.length_setOf]
    decide +kernel
  have hweak : Protection.ofDer weakProtection.toDer = .ok weakProtection := by decide +kernel
  cases h : prepare {} ⟨1654724214, 0, by decide⟩ substitutedRequest shortCertificate
      ecdsaSha256 with
  | error e => rw [h] at hok; cases hok
  | ok out =>
      obtain ⟨data, as, built, hgranted⟩ := exists_granted h
      cases hgranted.data_eq
      cases hread.symm.trans hgranted.read
      cases hbuild.symm.trans hgranted.build
      have hreread := Attributes.ofDer_toDer (Attributes.isExact_of_ofDer hread) hsize
      have hmem : weakProtection.toAttribute ∈ substitutedAttributes.mergeSort
          fun b c => Octets.le b.encoded c.encoded :=
        List.mem_mergeSort.mpr (by simp [substitutedAttributes])
      refine ⟨out, _, rfl, hgranted.out_eq ▸ hreread, hmem, fun hall => ?_⟩
      obtain ⟨i, q, s, -, hq, hdigest, -⟩ := (hall _ hmem weakProtection.toDer
        (List.mem_singleton_self _)).protection rfl
      cases hweak.symm.trans hq
      exact absurd hdigest (by decide)

end Presign.Cms

import Mathlib.Data.List.Find
import Mathlib.Data.List.Nodup
import Presign.Proofs.Cms.Acceptance
import Presign.Proofs.Cms.Rules
import Presign.Proofs.Der.SetOrder

/-!
# Preparing what is prepared

The data that is prepared for a request can take the place of the data of the request
(`prepare_again_iff`).  If no two attributes of the request have one type, the attributes
to sign are those of the request with new ones in place of all that have some types
(`Exchange`).  The new ones have such types themselves, so doing it again changes nothing.

Of what is checked again, only the protection of an advanced signature is new.  It stands
the check if the object identifier of the algorithm is told by its content.
-/

namespace Presign

namespace Cms

/-! ## Order does not count -/

section Distinct

variable {as bs : Attributes}

theorem Attributes.toDer_perm (h : as.Perm bs) : as.toDer = bs.toDer :=
  Der.setOf_perm (h.map Attribute.encoded)

/-- Attributes of which no two have the same type. -/
def Attributes.Distinct (as : Attributes) : Prop := (as.map Attribute.type).Nodup

theorem Attributes.Distinct.perm (h : as.Distinct) (hp : as.Perm bs) : bs.Distinct :=
  (hp.map Attribute.type).nodup_iff.mp h

/-- The order of distinct attributes does not count when one is looked for. -/
theorem Attributes.Distinct.find?_perm (h : as.Distinct) (hp : as.Perm bs) (type : Oid) :
    as.find? type = bs.find? type := by
  refine List.find?_eq_find?_of_perm hp ?_
  rintro b ⟨hb, htype⟩ c ⟨hc, htype'⟩
  refine List.inj_on_of_nodup_map h hb hc ?_
  rw [beq_iff_eq.mp htype, beq_iff_eq.mp htype']

theorem Attributes.Distinct.find?_of_mem (h : as.Distinct) {b : Attribute} (hb : b ∈ as) :
    as.find? b.type = some b := by
  obtain ⟨c, hc⟩ := Option.isSome_iff_exists.mp (find?_isSome_iff.mpr ⟨b, hb, rfl⟩)
  obtain ⟨hmem, htype⟩ := of_find? hc
  rw [hc, List.inj_on_of_nodup_map h hmem hb htype]

/-- Taking away the first attribute of a type takes away all of them, if there is at most
one. -/
theorem Attributes.eraseP_of_count_le {type : Oid} (h : (as.map Attribute.type).count type ≤ 1) :
    as.eraseP (fun b => b.type = type) = as.without [type] := by
  unfold without
  induction as with
  | nil => rfl
  | cons b as ih =>
      by_cases htype : b.type = type
      · rw [List.map_cons, htype, List.count_cons_self] at h
        have hnone : type ∉ as.map Attribute.type := List.count_eq_zero.mp (by omega)
        have hother : ∀ c ∈ as, c.type ≠ type := fun c hc he =>
          hnone (List.mem_map.mpr ⟨c, hc, he⟩)
        rw [List.eraseP_cons_of_pos (by simpa using htype),
          List.filter_cons_of_neg (by simpa using htype)]
        exact (List.filter_eq_self.mpr fun c hc => by simpa using hother c hc).symm
      · rw [List.map_cons, List.count_cons_of_ne htype] at h
        rw [List.eraseP_cons_of_neg (by simpa using htype),
          List.filter_cons_of_pos (by simpa using htype), ih h]

/-- Attributes of other types do not count when one is looked for. -/
theorem Attributes.find?_without {type : Oid} {types : List Oid} (h : type ∉ types)
    (as : Attributes) : (as.without types).find? type = as.find? type := by
  rw [without, find?, List.find?_filter, find?]
  refine List.find?_congr fun b _ => ?_
  by_cases htype : b.type = type
  · simp [htype, h]
  · simp [htype]

end Distinct

/-! ## Exchanging attributes -/

/-- New attributes that take the place of all attributes of some types. -/
structure Exchange where
  /-- The new attributes. -/
  new : Attributes
  /-- The types whose attributes they replace. -/
  types : List Oid
  types_new : ∀ b ∈ new, b.type ∈ types
  distinct_new : new.Distinct

namespace Exchange

/-- The attributes after the exchange. -/
def apply (e : Exchange) (as : Attributes) : Attributes := e.new ++ as.without e.types

variable {e : Exchange} {as bs : Attributes}

theorem apply_perm (h : as.Perm bs) : (e.apply as).Perm (e.apply bs) :=
  (h.filter _).append_left e.new

/-- An exchange that is made again changes nothing. -/
theorem apply_apply (e : Exchange) (as : Attributes) : e.apply (e.apply as) = e.apply as := by
  have hnew : Attributes.without e.new e.types = [] :=
    List.filter_eq_nil_iff.mpr fun b hb => by simpa using e.types_new b hb
  have hkept : (as.without e.types).without e.types = as.without e.types := by
    simp [Attributes.without]
  rw [apply, apply, Attributes.without, List.filter_append]
  change e.new ++ (Attributes.without e.new e.types ++ (as.without e.types).without e.types) = _
  rw [hnew, hkept, List.nil_append]

theorem distinct_apply (h : as.Distinct) : (e.apply as).Distinct := by
  rw [Attributes.Distinct, apply, List.map_append]
  refine List.Nodup.append e.distinct_new (h.sublist (List.filter_sublist.map _)) ?_
  intro type hnew hkept
  obtain ⟨b, hb, rfl⟩ := List.mem_map.mp hnew
  obtain ⟨c, hc, htype⟩ := List.mem_map.mp hkept
  have hnot : c.type ∉ e.types := by simpa using (List.mem_filter.mp hc).2
  exact hnot (htype ▸ e.types_new b hb)

theorem find?_apply_of_mem (h : as.Distinct) {b : Attribute} (hb : b ∈ e.new) :
    (e.apply as).find? b.type = some b :=
  (distinct_apply h).find?_of_mem (List.mem_append_left _ hb)

theorem find?_apply_of_notMem {type : Oid} (h : type ∉ e.types) :
    (e.apply as).find? type = as.find? type := by
  have hnew : List.find? (fun b => b.type == type) e.new = none := by
    refine List.find?_eq_none.mpr fun b hb he => h ?_
    exact beq_iff_eq.mp he ▸ e.types_new b hb
  rw [apply, Attributes.find?, List.find?_append, hnew, Option.none_or]
  exact Attributes.find?_without h as

end Exchange

section Again

variable {p : Policy} {now : Time.Instant} {advanced : Bool} {c : Certificate}
  {a : SignatureAlgorithm} {i : AlgorithmIdentifier} {e : Exchange} {as bs built : Attributes}

/-- Nothing is exchanged. -/
def Exchange.none : Exchange := ⟨[], [], by simp, List.nodup_nil⟩

/-- A reference to the certificate of the signer takes the place of all others. -/
def Exchange.reference (p : Policy) (c : Certificate) (a : SignatureAlgorithm) : Exchange where
  new := [freshReference p c a]
  types := SigningCertificate.types
  types_new := by simpa using mem_types_freshReference p c a
  distinct_new := List.nodup_singleton _

/-- A reference and a protection take the place of all others and of the times of
signing. -/
def Exchange.advance (p : Policy) (c : Certificate) (a : SignatureAlgorithm)
    (i : AlgorithmIdentifier) : Exchange where
  new := [freshReference p c a, (Protection.of a i).toAttribute]
  types := replacedTypes ++ [Oid.algorithmProtection]
  types_new := by
    have hreference := mem_types_freshReference p c a
    simp [replacedTypes, hreference, Protection.toAttribute, Attribute.of]
  distinct_new := by
    have hne : ∀ type ∈ SigningCertificate.types, type ≠ Oid.algorithmProtection := by decide
    simpa [Attributes.Distinct, Protection.toAttribute, Attribute.of]
      using hne _ (mem_types_freshReference p c a)

/-- The exchange that makes the attributes to sign. -/
def exchange? (p : Policy) (advanced : Bool) (c : Certificate) (a : SignatureAlgorithm)
    (as : Attributes) : Option Exchange :=
  if advanced then a.algorithmIdentifier?.map (Exchange.advance p c a)
  else if hasCertificate as then some (.reference p c a)
  else some .none

/-- No time of signing is left in an advanced signature. -/
theorem not_has_time_advance : ¬ ((Exchange.advance p c a i).apply as).Has Oid.signingTime := by
  have hcertificate : ∀ type ∈ SigningCertificate.types, type ≠ Oid.signingTime := by decide
  rintro ⟨b, hb, htype⟩
  rcases List.mem_append.mp hb with hnew | hkept
  · rcases List.mem_pair.mp hnew with rfl | rfl
    · exact hcertificate _ (mem_types_freshReference p c a) htype
    · exact absurd htype (show Oid.algorithmProtection ≠ Oid.signingTime by decide)
  · have hnot : b.type ∉ (Exchange.advance p c a i).types := by
      simpa using (List.mem_filter.mp hkept).2
    exact hnot (htype ▸ List.mem_cons_self ..)

theorem Exchange.none_apply (as : Attributes) : Exchange.none.apply as = as := by
  simp [apply, none, Attributes.without]

/-- If there is at most one protection, the new one stands for all old ones. -/
theorem advance_perm_of_count_le (h : (as.map Attribute.type).count Oid.algorithmProtection ≤ 1) :
    (advance p c a i as).Perm ((Exchange.advance p c a i).apply as) := by
  have hkept : ((as.without replacedTypes).map Attribute.type).count Oid.algorithmProtection ≤ 1 :=
    ((List.filter_sublist.map _).count_le _).trans h
  have hperm := advance_perm p c a i as
  rw [Attributes.eraseP_of_count_le hkept, Attributes.without_without] at hperm
  exact hperm

theorem advance_perm_of_distinct (h : as.Distinct) :
    (advance p c a i as).Perm ((Exchange.advance p c a i).apply as) :=
  advance_perm_of_count_le (List.nodup_iff_count_le_one.mp h _)

/-- The attributes to sign are those after the exchange, in some order. -/
theorem build_perm (h : build p advanced c a as = .ok built) (hd : as.Distinct) :
    ∃ e, exchange? p advanced c a as = some e ∧ built.Perm (e.apply as) := by
  unfold build at h
  unfold exchange?
  split at h
  next hadvanced =>
    obtain ⟨i, hi, rfl⟩ := Except.map_eq_ok.mp h
    rw [if_pos hadvanced, identifierOf_eq_ok_iff.mp hi]
    exact ⟨_, rfl, advance_perm_of_distinct hd⟩
  next hadvanced =>
    rw [if_neg hadvanced]
    split at h
    next hhas =>
      cases h
      exact ⟨_, if_pos hhas, withCertificate_perm p c a as⟩
    next hhas =>
      cases h
      exact ⟨_, if_neg hhas, List.Perm.of_eq (Exchange.none_apply as).symm⟩

theorem exists_build_of_exchange (h : exchange? p advanced c a as = some e) :
    ∃ built, build p advanced c a as = .ok built := by
  refine exists_build_iff.mpr fun hadvanced => exists_algorithmIdentifier_iff.mp ?_
  rw [exchange?, if_pos hadvanced] at h
  obtain ⟨i, hi, -⟩ := Option.map_eq_some_iff.mp h
  exact ⟨i, hi⟩

/-- After an exchange the same one is due again. -/
theorem exchange?_again (h : exchange? p advanced c a as = some e) (hp : bs.Perm (e.apply as)) :
    exchange? p advanced c a bs = some e := by
  unfold exchange? at h ⊢
  split at h
  next hadvanced => rw [if_pos hadvanced, h]
  next hadvanced =>
    rw [if_neg hadvanced]
    have hhas : hasCertificate bs = hasCertificate (e.apply as) := hp.any_eq
    rw [hhas]
    split at h
    next =>
      cases h
      have hnew : hasCertificate ((Exchange.reference p c a).apply as) = true :=
        List.any_eq_true.mpr ⟨freshReference p c a, List.mem_append_left _ (List.mem_cons_self ..),
          by simpa using mem_types_freshReference p c a⟩
      rw [hnew, if_pos rfl]
    next hnone =>
      cases h
      rw [Exchange.none_apply, if_neg hnone]

/-- What is built from attributes that were built is the same set. -/
theorem build_again (h : build p advanced c a as = .ok built) (hd : as.Distinct)
    (hp : bs.Perm built) : ∃ again, build p advanced c a bs = .ok again ∧ again.Perm built := by
  obtain ⟨e, he, hbuilt⟩ := build_perm h hd
  have he' := exchange?_again he (hp.trans hbuilt)
  obtain ⟨again, hagain⟩ := exists_build_of_exchange he'
  have hd' : bs.Distinct := (Exchange.distinct_apply hd).perm (hp.trans hbuilt).symm
  obtain ⟨e', he'', hperm⟩ := build_perm hagain hd'
  cases he'.symm.trans he''
  refine ⟨again, hagain, hperm.trans ((Exchange.apply_perm (hp.trans hbuilt)).trans ?_)⟩
  rw [Exchange.apply_apply]
  exact hbuilt.symm

/-! ## Checking again -/

theorem Attributes.firstValue_congr {rule : Oid → Octets → Prop} {type : Oid}
    (h : as.find? type = bs.find? type) : as.FirstValue rule type ↔ bs.FirstValue rule type := by
  rw [FirstValue, FirstValue, h]

theorem Attributes.has_congr {type : Oid} (h : as.find? type = bs.find? type) :
    as.Has type ↔ bs.Has type := by
  rw [← find?_isSome_iff, ← find?_isSome_iff, h]

/-- Attributes are acceptable if the first ones of the types that are checked are those of
acceptable attributes. -/
theorem Acceptable.congr (h : Acceptable p now advanced a as)
    (hfind : ∀ type ∈ Oid.messageDigest :: ruledTypes, as.find? type = bs.find? type) :
    Acceptable p now advanced a bs := by
  simp only [ruledTypes, List.forall_mem_cons] at hfind
  obtain ⟨hdigest, hcontent, hprotection, htime, -⟩ := hfind
  constructor
  · exact (Attributes.firstValue_congr hcontent).mp h.contentType
  · exact (Attributes.has_congr hdigest).mp h.messageDigest
  · exact fun hadvanced => (Attributes.firstValue_congr htime).mp (h.time hadvanced)
  · exact fun hadvanced hstrict hhas =>
      h.noTime hadvanced hstrict ((Attributes.has_congr htime).mpr hhas)
  · exact fun hhas => (Attributes.firstValue_congr hprotection).mp
      (h.protection ((Attributes.has_congr hprotection).mpr hhas))
  · exact fun hneed => h.identifier (hneed.imp id (Attributes.has_congr hprotection).mpr)

/-- Without an advanced signature only the references to a certificate are exchanged, which
no check looks at. -/
theorem Acceptable.again (h : Acceptable p now false a as)
    (he : exchange? p false c a as = some e) (hd : as.Distinct) (hp : bs.Perm (e.apply as)) :
    Acceptable p now false a bs := by
  have hsub : e.types ⊆ SigningCertificate.types := by
    rw [exchange?, if_neg Bool.false_ne_true] at he
    split at he
    next =>
      cases he
      exact List.Subset.refl _
    next =>
      cases he
      exact List.nil_subset _
  have hnone : ∀ type ∈ Oid.messageDigest :: ruledTypes, type ∉ SigningCertificate.types := by
    decide
  refine h.congr fun type ht => ?_
  rw [← (Exchange.distinct_apply hd).find?_perm hp.symm,
    Exchange.find?_apply_of_notMem fun hmem => hnone type ht (hsub hmem)]

/-- In an advanced signature the new protection is checked, and nothing else that is new. -/
theorem Acceptable.again_advance_iff (h : Acceptable p now true a as)
    (hi : a.algorithmIdentifier? = some i) (hd : as.Distinct)
    (hp : bs.Perm ((Exchange.advance p c a i).apply as)) (hsize : bs.toDer.length < 2 ^ 32) :
    Acceptable p now true a bs ↔ HasReadableOid a := by
  have hfind (type : Oid) : bs.find? type = ((Exchange.advance p c a i).apply as).find? type :=
    ((Exchange.distinct_apply hd).find?_perm hp.symm type).symm
  have hkept : ∀ type ∉ replacedTypes ++ [Oid.algorithmProtection],
      as.find? type = bs.find? type := fun type ht => by
    rw [hfind, Exchange.find?_apply_of_notMem ht]
  have hnew : (Protection.of a i).toAttribute ∈ (Exchange.advance p c a i).new := by
    simp [Exchange.advance]
  have hmem : (Protection.of a i).toAttribute ∈ bs := hp.mem_iff.mpr (List.mem_append_left _ hnew)
  have hprotection : bs.find? Oid.algorithmProtection = some (Protection.of a i).toAttribute :=
    (hfind _).trans (Exchange.find?_apply_of_mem hd hnew)
  rw [← protects_toDer_iff hi (Nat.lt_trans (Protection.length_toDer_lt hmem) hsize)]
  constructor
  · intro hagain
    obtain ⟨b, v, hb, hv, hvalue⟩ := hagain.protection ⟨_, hmem, rfl⟩
    cases hprotection.symm.trans hb
    cases hv
    exact hvalue
  · intro hvalue
    constructor
    · exact (Attributes.firstValue_congr (hkept _ (by decide))).mp h.contentType
    · exact (Attributes.has_congr (hkept _ (by decide))).mp h.messageDigest
    · exact fun hadvanced => by cases hadvanced
    · rintro - - hhas
      rw [Attributes.has_congr (hfind _)] at hhas
      exact absurd hhas not_has_time_advance
    · exact fun _ => ⟨_, _, hprotection, rfl, hvalue⟩
    · exact fun _ => h.identifier (Or.inl rfl)

/-- Attributes that were built are acceptable again, unless the new protection of an
advanced signature is not. -/
theorem Acceptable.again_iff (h : Acceptable p now advanced a as)
    (hbuild : build p advanced c a as = .ok built) (hd : as.Distinct) (hp : bs.Perm built)
    (hsize : bs.toDer.length < 2 ^ 32) :
    Acceptable p now advanced a bs ↔ (advanced = true → HasReadableOid a) := by
  obtain ⟨e, he, hbuilt⟩ := build_perm hbuild hd
  cases advanced with
  | false => simpa using h.again he hd (hp.trans hbuilt)
  | true =>
      obtain ⟨i, hi, rfl⟩ := Option.map_eq_some_iff.mp he
      rw [forall_prop_of_true rfl]
      exact h.again_advance_iff hi hd (hp.trans hbuilt) hsize

end Again

section Prepared

variable {p : Policy} {now : Time.Instant} {r : Request} {c : Certificate}
  {a : SignatureAlgorithm} {out again : Prepared} {data : Octets} {as : Attributes}

/-- What is prepared is read as attributes from which the same is built again. -/
theorem exists_reread_of_prepare (h : prepare p now r c a = .ok out) (hdata : r.data = some data)
    (has : Attributes.ofDer data = .ok as) (hd : as.Distinct) (hsize : out.data.length < 2 ^ 32) :
    ∃ reread rebuilt, Attributes.ofDer out.data = .ok reread ∧
      (Acceptable p now r.profile.isAdvanced a reread
        ↔ (r.profile.isAdvanced = true → HasReadableOid a)) ∧
      build p r.profile.isAdvanced c a reread = .ok rebuilt ∧ rebuilt.toDer = out.data := by
  obtain ⟨-, -, hgood, built, hbuild, rfl⟩ := (prepare_eq_ok_iff_of_ofDer hdata has).mp h
  have hread := Attributes.ofDer_toDer
    (isExact_of_build hbuild (Attributes.isExact_of_ofDer has) hsize) hsize
  have hperm := List.mergeSort_perm built fun b c => Octets.le b.encoded c.encoded
  obtain ⟨rebuilt, hrebuild, hsame⟩ := build_again hbuild hd hperm
  exact ⟨_, rebuilt, hread, hgood.again_iff hbuild hd hperm (Attributes.toDer_perm hperm ▸ hsize),
    hrebuild, Attributes.toDer_perm hsame⟩

/-- What is prepared for a request with attributes of distinct types can take the place of
its data.  The same is prepared again, unless the signature is an advanced one and the
object identifier of the algorithm is not told by its content, which is refused. -/
theorem prepare_again_iff (h : prepare p now r c a = .ok out) (hdata : r.data = some data)
    (has : Attributes.ofDer data = .ok as) (hd : as.Distinct) (hsize : out.data.length < 2 ^ 32) :
    prepare p now { r with data := some out.data } c a = .ok again
      ↔ again = out ∧ (r.profile.isAdvanced = true → HasReadableOid a) := by
  obtain ⟨reread, rebuilt, hread, hgood, hbuild, hder⟩ :=
    exists_reread_of_prepare h hdata has hd hsize
  obtain ⟨htype, hrule, houtRule, houtObject, -⟩ := prepare_eq_ok_iff.mp h
  have hout : out = ⟨rebuilt.toDer, r.rule, none⟩ := by rw [hder, ← houtRule, ← houtObject]
  rw [prepare_eq_ok_iff_of_ofDer rfl hread, ← hgood]
  constructor
  · rintro ⟨-, -, hagain, rebuilt', hbuild', rfl⟩
    cases hbuild.symm.trans hbuild'
    exact ⟨hout.symm, hagain⟩
  · rintro ⟨rfl, hagain⟩
    exact ⟨htype, hrule, hagain, rebuilt, hbuild, hout⟩

end Prepared

/-- Attributes of distinct types, with a time of signing and a reference to a certificate. -/
def assortedAttributes : Attributes :=
  [.of Oid.contentType [Der.oid Oid.idData], .of Oid.signingTime [Der.null],
    .of Oid.signingCertificate [Der.null], .of Oid.messageDigest [[4, 1, 7]]]

/-- An advanced request with these attributes, in this order. -/
def assortedRequest : Request :=
  ⟨some .pdf, some (Der.element Der.Tag.set assortedAttributes.encodings.flatten), .bes, none,
    none⟩

theorem ofDer_assorted : Attributes.ofDer (Der.element Der.Tag.set
    assortedAttributes.encodings.flatten) = .ok assortedAttributes := by decide +kernel

/-- An algorithm whose object identifier has an arc of 128. -/
def undividedArc : SignatureAlgorithm := ⟨"urn:undivided", .ec, .sha256, 5, some "1.2.128"⟩

/-- The request is granted, with the arc of 128 as with the identifier of an algorithm. -/
theorem exists_prepare_assorted :
    ∀ a ∈ [ecdsaSha256, undividedArc], ∃ out,
      prepare {} ⟨1654724214, 0, by decide⟩ assortedRequest shortCertificate a = .ok out ∧
        out.data.length < 2 ^ 32 := by
  intro a ha
  have hok : ∀ a ∈ [ecdsaSha256, undividedArc],
      (prepare {} ⟨1654724214, 0, by decide⟩ assortedRequest shortCertificate a).isOk = true := by
    decide +kernel
  have hlength : ∀ a ∈ [ecdsaSha256, undividedArc],
      ∀ built ∈ (build {} true shortCertificate a assortedAttributes).toOption,
        (Der.element Der.Tag.set built.encodings.flatten).length < 2 ^ 32 := by decide +kernel
  obtain ⟨out, h⟩ := Except.isOk_iff.mp (hok a ha)
  obtain ⟨-, -, -, built, hbuild, rfl⟩ := (prepare_eq_ok_iff_of_ofDer rfl ofDer_assorted).mp h
  refine ⟨_, h, ?_⟩
  rw [Attributes.toDer, Der.length_setOf]
  refine hlength a ha built ?_
  rw [show build {} true shortCertificate a assortedAttributes = .ok built from hbuild]
  rfl

theorem distinct_assorted : assortedAttributes.Distinct := by
  unfold Attributes.Distinct
  decide +kernel

/-- With the identifier of an algorithm the same is prepared again. -/
theorem prepare_again_assorted :
    ∃ out, prepare {} ⟨1654724214, 0, by decide⟩ assortedRequest shortCertificate ecdsaSha256
        = .ok out ∧
      prepare {} ⟨1654724214, 0, by decide⟩ { assortedRequest with data := some out.data }
        shortCertificate ecdsaSha256 = .ok out := by
  obtain ⟨out, h, hsize⟩ := exists_prepare_assorted ecdsaSha256 (List.mem_cons_self ..)
  exact ⟨out, h, (prepare_again_iff h rfl ofDer_assorted distinct_assorted hsize).mpr
    ⟨rfl, fun _ => ⟨.bare (Oid.ecdsaWithSha2 2), by decide +kernel, by decide +kernel⟩⟩⟩

/-- With the arc of 128 what is prepared is refused. -/
theorem prepare_again_undivided :
    (∃ data ∈ assortedRequest.data, Attributes.ofDer data = .ok assortedAttributes) ∧
    assortedAttributes.Distinct ∧
    ∃ out, prepare {} ⟨1654724214, 0, by decide⟩ assortedRequest shortCertificate undividedArc
        = .ok out ∧ out.data.length < 2 ^ 32 ∧
      ∀ again, prepare {} ⟨1654724214, 0, by decide⟩
        { assortedRequest with data := some out.data } shortCertificate undividedArc
          ≠ .ok again := by
  obtain ⟨out, h, hsize⟩ := exists_prepare_assorted undividedArc (by simp)
  refine ⟨⟨_, rfl, ofDer_assorted⟩, distinct_assorted, out, h, hsize, fun again hagain => ?_⟩
  obtain ⟨reread, -, hread, hgood, -⟩ :=
    exists_reread_of_prepare h rfl ofDer_assorted distinct_assorted hsize
  obtain ⟨-, -, hacceptable, -⟩ := (prepare_eq_ok_iff_of_ofDer rfl hread).mp hagain
  obtain ⟨i, hi, ho⟩ := hgood.mp hacceptable rfl
  have hid : undividedArc.algorithmIdentifier? = some (.bare ⟨1, 2, [128]⟩) := by decide +kernel
  cases hid.symm.trans hi
  exact absurd ho (by decide +kernel)

end Cms

end Presign

import Presign.Proofs.Policy
import Presign.Proofs.SignedInfo.Preparation

/-!
# Which requests for XML signatures are granted

A request for an XML signature is granted exactly if its documents can be read and are
acceptable (`exists_prepare_iff_acceptable`).  The checks look at the signed information and at
the object that comes with a request, also where no advanced signature is asked for.  Making the
data to sign adds to them only for an advanced signature.  A strict policy refuses a reference to
the certificate in the form of version 1, and the canonicalization method has to be known.
Nothing else can fail: the object is completed, whatever it lacks, and the signed properties are
then found in it.
-/

namespace Presign.Xml.CanonicalMethod

theorem ofUri_eq_ok_iff {uri : String} {m : CanonicalMethod} :
    ofUri uri = .ok m ↔ uri = m.uri := by
  constructor
  · intro h
    unfold ofUri at h
    split at h
    next m' hfind =>
      cases h
      exact (beq_iff_eq.mp (List.find?_some (p := fun m => CanonicalMethod.uri m == uri) hfind)).symm
    next => cases h
  · rintro rfl
    obtain ⟨rule, comments⟩ := m
    cases rule <;> cases comments <;> rfl

theorem mem_all (m : CanonicalMethod) : m ∈ all := by
  obtain ⟨rule, comments⟩ := m
  cases rule <;> cases comments <;> decide

end Presign.Xml.CanonicalMethod

namespace Presign

theorem Xades.Object.read_eq_ok_iff {bs : Octets} {o : Xades.Object} :
    Xades.Object.read bs = .ok o ↔ Xml.Element.read bs = .ok o.element := by
  refine ⟨SignedInfo.read_element, fun h => Except.bind_eq_ok.mpr
    ⟨o.element, Except.mapError_eq_ok.mpr h, ?_⟩⟩
  rw [dif_pos o.isObject, dif_pos o.qualifies]
  rfl

namespace SignedInfo

open Xml (Element CanonicalMethod signatureSpace xadesSpace)

/-! ## The object -/

/-- The object that comes with a request, if one does. -/
inductive Supplies (r : Request) : Option Xades.Object → Prop where
  | nothing (absent : r.adesObject.bind AdesObject.object = none) : Supplies r none
  | object {bs : Octets} {o : Xades.Object} (supplied : r.adesObject.bind AdesObject.object = some bs)
      (read : Element.read bs = .ok o.element) : Supplies r (some o)

/-- An object that claims no time of signing, or one that can be read and lies in the window. -/
def IsTimely (p : Policy) (now : Time.Instant) (o : Xades.Object) : Prop :=
  ∀ properties ∈ o.signatureProperties?,
    ∀ claim ∈ properties.findChild? xadesSpace Xades.signingTime,
      ∃ time, Xades.Object.readDateTime? (String.ofList (Text.trim claim.text.toList)) = some time ∧
        (Time.Window.around now p.messageAge p.clockSkew).Contains time

/-- An object in which the certificate is not referred to in the form of version 1. -/
def LacksCertificateV1 (o : Xades.Object) : Prop :=
  ∀ properties ∈ o.signatureProperties?,
    properties.findChild? xadesSpace Xades.signingCertificate = none

/-! ## Acceptable documents -/

/-- Signed information that may be signed with an algorithm. -/
structure IsSignable (a : SignatureAlgorithm) (e : Element) : Prop where
  root : e.is signatureSpace "SignedInfo" = true
  /-- The first signature method is the algorithm. -/
  method : ∃ method, e.findChild? signatureSpace "SignatureMethod" = some method ∧
    method.attribute? "Algorithm" = some a.uri
  refers : ∃ c ∈ e.childElements, c.is signatureSpace "Reference" = true
  refersOnce : ((references e).filter hasPropertiesType).length ≤ 1

/-- What an advanced signature needs besides. -/
structure IsAdvanceable (p : Policy) (r : Request) (e : Element) (object : Option Xades.Object) :
    Prop where
  identified : ∃ o id, r.adesObject = some o ∧ o.signatureId = some id
  lacksV1 : p.strict = true → ∀ o ∈ object, LacksCertificateV1 o
  /-- The first canonicalization method is one that is known. -/
  canonicalization : ∃ method, e.findChild? signatureSpace "CanonicalizationMethod" = some method ∧
    ∃ m ∈ CanonicalMethod.all, method.attribute? "Algorithm" = some m.uri

variable {p : Policy} {now : Time.Instant} {r : Request} {c : Certificate} {a : SignatureAlgorithm}
  {e : Element} {object : Option Xades.Object}

/-! ## What each check asks for -/

theorem read_eq_ok_iff {bs : Octets} :
    read bs = .ok e ↔ Element.read bs = .ok e ∧ e.is signatureSpace "SignedInfo" = true := by
  refine ⟨read_root, fun ⟨h, hroot⟩ => Except.bind_eq_ok.mpr ⟨e, Except.mapError_eq_ok.mpr h, ?_⟩⟩
  rw [if_pos hroot]
  rfl

/-- A claimed time is looked at only where it is looked for. -/
theorem isTimely_iff {o : Xades.Object} :
    IsTimely p now o ↔ ∃ claimed, o.signingTime? = .ok claimed ∧
      ∀ time ∈ claimed, p.checkTime now time = .ok () := by
  simp only [IsTimely, Policy.checkTime_eq_ok_iff]
  unfold Xades.Object.signingTime?
  cases o.signatureProperties? with
  | none => simp
  | some properties =>
      rw [Option.bind_some]
      cases hclaim : properties.findChild? xadesSpace Xades.signingTime with
      | none => simp [hclaim]
      | some claim =>
          cases hread : Xades.Object.readDateTime?
              (String.ofList (Text.trim claim.text.toList)) with
          | none => simp [hclaim, hread]
          | some time => simp [hclaim, hread]

theorem readObject_eq_ok_iff :
    readObject p now r = .ok object ↔ Supplies r object ∧ ∀ o ∈ object, IsTimely p now o := by
  unfold readObject
  cases hsupplied : r.adesObject.bind AdesObject.object with
  | none =>
      constructor
      · intro h
        cases h
        exact ⟨.nothing hsupplied, fun o ho => by cases ho⟩
      · rintro ⟨hsupplies, -⟩
        cases hsupplies with
        | nothing => rfl
        | object h => rw [hsupplied] at h; cases h
  | some bs =>
      dsimp only
      constructor
      · intro h
        obtain ⟨o, hread, h⟩ := Except.bind_eq_ok.mp h
        obtain ⟨claimed, hclaimed, h⟩ := Except.bind_eq_ok.mp h
        rw [Except.mapError_eq_ok] at hread hclaimed
        have hobject : object = some o ∧ ∀ time ∈ claimed, p.checkTime now time = .ok () := by
          cases claimed with
          | none => cases h; exact ⟨rfl, fun time ht => by cases ht⟩
          | some time =>
              obtain ⟨⟨⟩, htime, h⟩ := Except.bind_eq_ok.mp h
              cases h
              exact ⟨rfl, fun time' ht => by cases ht; exact htime⟩
        obtain ⟨rfl, htimes⟩ := hobject
        refine ⟨.object hsupplied (Xades.Object.read_eq_ok_iff.mp hread), fun o' ho' => ?_⟩
        cases ho'
        exact isTimely_iff.mpr ⟨claimed, hclaimed, htimes⟩
      · rintro ⟨hsupplies, htimely⟩
        cases hsupplies with
        | nothing h => rw [hsupplied] at h; cases h
        | @object bs' o h hread =>
            cases hsupplied.symm.trans h
            obtain ⟨claimed, hclaimed, htimes⟩ := isTimely_iff.mp (htimely o rfl)
            refine Except.bind_eq_ok.mpr ⟨o,
              Except.mapError_eq_ok.mpr (Xades.Object.read_eq_ok_iff.mpr hread),
              Except.bind_eq_ok.mpr ⟨claimed, Except.mapError_eq_ok.mpr hclaimed, ?_⟩⟩
            cases claimed with
            | none => rfl
            | some time => exact Except.bind_eq_ok.mpr ⟨(), htimes time rfl, rfl⟩

/-- What a request supplies is what is read of it. -/
theorem Supplies.eq_some {bs : Octets} {o : Xades.Object} (h : Supplies r object)
    (hsupplied : r.adesObject.bind AdesObject.object = some bs)
    (hread : Element.read bs = .ok o.element) : object = some o := by
  cases h with
  | nothing h => rw [hsupplied] at h; cases h
  | object h hread' =>
      cases hsupplied.symm.trans h
      have heq := Xades.Object.read_eq_ok_iff.mpr hread
      rw [Xades.Object.read_eq_ok_iff.mpr hread'] at heq
      exact congrArg some (Except.ok.inj heq)

theorem checkMethod_eq_ok_iff :
    checkMethod e a = .ok () ↔ ∃ method, e.findChild? signatureSpace "SignatureMethod" = some method ∧
      method.attribute? "Algorithm" = some a.uri := by
  unfold checkMethod
  cases e.findChild? signatureSpace "SignatureMethod" with
  | none => simp
  | some method =>
      cases hvalue : method.attribute? "Algorithm" with
      | none => simp [hvalue]
      | some uri => simp [hvalue]

theorem checkReferences_eq_ok_iff :
    checkReferences e = .ok ()
      ↔ (∃ c ∈ e.childElements, c.is signatureSpace "Reference" = true) ∧
        ((references e).filter hasPropertiesType).length ≤ 1 := by
  have hempty : (references e).isEmpty = true
      ↔ ¬ ∃ c ∈ e.childElements, c.is signatureSpace "Reference" = true := by
    simp [references, Element.findChildren]
  unfold checkReferences
  by_cases href : ∃ c ∈ e.childElements, c.is signatureSpace "Reference" = true
  · rw [if_neg fun h => hempty.mp h href, and_iff_right href, ← Nat.not_lt]
    split
    next h => simp [h]
    next h => simp [h]
  · rw [if_pos (hempty.mpr href)]
    simp [href]

theorem advancedId_eq_ok_iff {id : Option String} :
    advancedId r = .ok id
      ↔ if r.profile.isAdvanced then ∃ o s, r.adesObject = some o ∧ o.signatureId = some s ∧ id = some s
        else id = none := by
  unfold advancedId
  split
  next =>
    cases r.adesObject with
    | none => simp
    | some o =>
        cases hid : o.signatureId with
        | none => simp [hid]
        | some s => simp [hid, eq_comm]
  next => simp [eq_comm]

/-- A request passes the checks if its documents can be read and are acceptable. -/
theorem check_eq_ok_iff {checked : Checked} :
    check p now r a = .ok checked
      ↔ r.data = some checked.data ∧ r.type = some checked.type ∧
        advancedId r = .ok checked.advancedId ∧
        (Supplies r checked.object ∧ ∀ o ∈ checked.object, IsTimely p now o) ∧
        Element.read checked.data = .ok checked.element ∧ IsSignable a checked.element := by
  simp only [check, Except.bind_eq_ok, Except.mapError_eq_ok, Request.essentials_eq_ok_iff,
    readObject_eq_ok_iff, read_eq_ok_iff]
  constructor
  · rintro ⟨essentials, ⟨hdata, htype⟩, id, hid, object, hobject, e, ⟨hread, hroot⟩, ⟨⟩, hmethod,
      ⟨⟩, hreferences, h⟩
    cases h
    obtain ⟨hrefers, honce⟩ := checkReferences_eq_ok_iff.mp hreferences
    exact ⟨hdata, htype, hid, hobject, hread, hroot, checkMethod_eq_ok_iff.mp hmethod, hrefers,
      honce⟩
  · rintro ⟨hdata, htype, hid, hobject, hread, hsignable⟩
    exact ⟨⟨checked.data, checked.type⟩, ⟨hdata, htype⟩, _, hid, _, hobject, _,
      ⟨hread, hsignable.root⟩, (), checkMethod_eq_ok_iff.mpr hsignable.method, (),
      checkReferences_eq_ok_iff.mpr ⟨hsignable.refers, hsignable.refersOnce⟩, rfl⟩

/-! ## What completing asks for -/

theorem canonicalMethod_eq_ok_iff {m : CanonicalMethod} :
    canonicalMethod e = .ok m
      ↔ ∃ method, e.findChild? signatureSpace "CanonicalizationMethod" = some method ∧
        method.attribute? "Algorithm" = some m.uri := by
  unfold canonicalMethod
  cases e.findChild? signatureSpace "CanonicalizationMethod" with
  | none => simp
  | some method =>
      cases hvalue : method.attribute? "Algorithm" with
      | none => simp [hvalue]
      | some uri => simp [hvalue, Except.mapError_eq_ok, CanonicalMethod.ofUri_eq_ok_iff]

theorem lacksCertificateV1_iff {o : Xades.Object} :
    LacksCertificateV1 o ↔ ¬ o.hasSigningCertificateV1 = true := by
  unfold LacksCertificateV1 Xades.Object.hasSigningCertificateV1
  cases o.signatureProperties? with
  | none => simp
  | some properties => simp

/-- The object that is updated has no reference in the form of version 1 if the client's has
none, since the empty object has none. -/
theorem lacksCertificateV1_objectToUpdate {checked : Checked} :
    LacksCertificateV1 checked.objectToUpdate ↔ ∀ o ∈ checked.object, LacksCertificateV1 o := by
  rw [Checked.objectToUpdate]
  cases checked.object with
  | none =>
      have hempty : LacksCertificateV1 .empty := lacksCertificateV1_iff.mpr (by decide)
      simp [hempty]
  | some o => simp

/-- The canonicalization method of a document that was built is known. -/
theorem of_build {checked : Checked} {id : String} {built : Octets × AdesObject}
    (h : build p now c a checked id = .ok built) :
    (p.strict = true → ∀ o ∈ checked.object, LacksCertificateV1 o) ∧
      ∃ m, canonicalMethod checked.element = .ok m := by
  obtain ⟨data, object⟩ := built
  obtain ⟨text, m, bs, -, hbuilt⟩ := built_of_build h
  refine ⟨fun hstrict => lacksCertificateV1_objectToUpdate.mp (lacksCertificateV1_iff.mpr
    fun hV1 => ?_), m, hbuilt.method⟩
  unfold build at h
  dsimp only at h
  rw [if_pos ⟨hstrict, hV1⟩] at h
  cases h

/-! ## Granted requests -/

/-- What a granted request is answered with. -/
theorem prepare_eq_ok_iff {out : Prepared} :
    prepare p now r c a = .ok out
      ↔ ∃ checked, check p now r a = .ok checked ∧ p.allow r.rule checked.type .xml = .ok () ∧
        match checked.advancedId with
        | none => out = ⟨checked.data, r.rule, none⟩
        | some id => ∃ built, build p now c a checked id = .ok built ∧
          out = ⟨built.1, r.rule, some built.2⟩ := by
  rw [prepare, Except.bind_eq_ok]
  constructor
  · rintro ⟨checked, hcheck, h⟩
    obtain ⟨⟨⟩, hallow, h⟩ := Except.bind_eq_ok.mp h
    refine ⟨checked, Except.mapError_eq_ok.mp hcheck, hallow, ?_⟩
    cases hid : checked.advancedId with
    | none =>
        rw [hid] at h
        exact (Except.ok.inj h).symm
    | some id =>
        rw [hid] at h
        obtain ⟨built, hbuild, h⟩ := Except.bind_eq_ok.mp h
        exact ⟨built, Except.mapError_eq_ok.mp hbuild, (Except.ok.inj h).symm⟩
  · rintro ⟨checked, hcheck, hallow, h⟩
    refine ⟨checked, Except.mapError_eq_ok.mpr hcheck, Except.bind_eq_ok.mpr ⟨(), hallow, ?_⟩⟩
    cases hid : checked.advancedId with
    | none =>
        rw [hid] at h
        rw [h]
        rfl
    | some id =>
        rw [hid] at h
        obtain ⟨built, hbuild, rfl⟩ := h
        exact Except.bind_eq_ok.mpr ⟨built, Except.mapError_eq_ok.mpr hbuild, rfl⟩

/-- A request is granted exactly if it is one for an XML signature, under no rule or a supported
one, its data are signed information that may be signed, the object that it supplies claims no
time outside of the window, and an advanced signature has what it needs besides. -/
theorem exists_prepare_iff_acceptable :
    (∃ out, prepare p now r c a = .ok out)
      ↔ ∃ data e object, r.data = some data ∧ r.type = some .xml ∧
        (∀ uri ∈ r.rule, uri ∈ p.supportedRules) ∧ Element.read data = .ok e ∧ IsSignable a e ∧
        Supplies r object ∧ (∀ o ∈ object, IsTimely p now o) ∧
        (r.profile.isAdvanced = true → IsAdvanceable p r e object) := by
  constructor
  · rintro ⟨out, h⟩
    obtain ⟨checked, hcheck, hallow, h⟩ := prepare_eq_ok_iff.mp h
    obtain ⟨hdata, htype, hid, ⟨hsupplies, htimely⟩, hread, hsignable⟩ := check_eq_ok_iff.mp hcheck
    obtain ⟨hrule, hxml⟩ := Policy.allow_eq_ok_iff.mp hallow
    refine ⟨_, _, _, hdata, hxml ▸ htype, hrule, hread, hsignable, hsupplies, htimely,
      fun hadvanced => ?_⟩
    rw [advancedId_eq_ok_iff, if_pos hadvanced] at hid
    obtain ⟨o, id, ho, hsignature, hid⟩ := hid
    rw [hid] at h
    obtain ⟨built, hbuild, -⟩ := h
    obtain ⟨hlacks, m, hm⟩ := of_build hbuild
    obtain ⟨method, hmethod, huri⟩ := canonicalMethod_eq_ok_iff.mp hm
    exact ⟨⟨o, id, ho, hsignature⟩, hlacks, method, hmethod, m, m.mem_all, huri⟩
  · rintro ⟨data, e, object, hdata, htype, hrule, hread, hsignable, hsupplies, htimely, hadvance⟩
    have hallow := Policy.allow_eq_ok_iff.mpr ⟨hrule, (rfl : SignatureType.xml = .xml)⟩
    have hcheck {id : Option String} (hid : advancedId r = .ok id) :
        check p now r a = .ok ⟨.xml, data, e, object, id⟩ :=
      check_eq_ok_iff.mpr ⟨hdata, htype, hid, ⟨hsupplies, htimely⟩, hread, hsignable⟩
    by_cases hadvanced : r.profile.isAdvanced = true
    · obtain ⟨⟨o, id, ho, hsignature⟩, hlacks, method, hmethod, m, -, huri⟩ := hadvance hadvanced
      have hid : advancedId r = .ok (some id) := by
        rw [advancedId_eq_ok_iff, if_pos hadvanced]
        exact ⟨o, id, ho, hsignature, rfl⟩
      refine exists_prepare c (hcheck hid) rfl hallow ?_
        (canonicalMethod_eq_ok_iff.mpr ⟨method, hmethod, huri⟩)
      rintro ⟨hstrict, hV1⟩
      exact lacksCertificateV1_iff.mp
        (lacksCertificateV1_objectToUpdate.mpr (hlacks hstrict)) hV1
    · have hid : advancedId r = .ok none := by
        rw [advancedId_eq_ok_iff, if_neg hadvanced]
      exact ⟨_, prepare_eq_ok_iff.mpr ⟨_, hcheck hid, hallow, rfl⟩⟩

end SignedInfo

end Presign

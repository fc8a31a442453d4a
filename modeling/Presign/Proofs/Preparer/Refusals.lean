import Presign.Preparer
import Presign.Proofs.Cms.Acceptance
import Presign.Proofs.Cms.Rules

/-!
# Kinds of refusals

A check refuses a request as an invalid one.  A preparation refuses it as a signature error,
and one that fails in the check has the cause that the check alone would give.

There is one exception (`Preparer.refusal_kinds`).  Attributes name a signature algorithm by
its object identifier, which an algorithm need not have.  A request that calls for the
identifier of an algorithm without one is refused as an error of the program that calls, in
both phases.  Requests of two kinds call for it:

* one that comes with a protection, which is compared with the algorithm once the checks
  before it have passed (`Cms.Compared`),
* one for an advanced signature, to which a protection is added (`Cms.Extended`).
-/

namespace Presign

/-- A refusal of a request that the client can correct. -/
def Refusal.IsInvalid (e : Refusal) : Prop := e.kind = .invalidRequest

theorem Refusal.IsInvalid.onSigning {e : Refusal} (h : e.IsInvalid) :
    e.onSigning = .violation e.cause := by
  rw [Refusal.onSigning, if_pos (show e.kind = .invalidRequest from h)]
  rfl

variable {p : Policy} {now : Time.Instant} {r : Request} {c : Certificate}
  {a : SignatureAlgorithm} {e : Refusal}

/-! ## Steps of both preparers -/

theorem Request.essentials_failsOnly : FailsOnly Refusal.IsInvalid r.essentials := by
  unfold Request.essentials
  split
  next => exact .error rfl
  next => exact .error rfl
  next => exact .ok

theorem Policy.checkTime_failsOnly {claimed : Time.Instant} :
    FailsOnly Refusal.IsInvalid (p.checkTime now claimed) :=
  .of_mapError fun _ => rfl

theorem Policy.allow_failsOnly {rule : Option String} {type expected : SignatureType} :
    FailsOnly (·.isSignatureError = true) (p.allow rule type expected) := by
  refine .bind ?_ fun _ => ?_
  · unfold Policy.checkRule
    split
    next => exact .ok
    next =>
      split
      next => exact .ok
      next => exact .error rfl
  · split
    next => exact .ok
    next => exact .error rfl

/-! ## Signed attributes -/

namespace Cms

/-- The refusal for want of the identifier of an algorithm. -/
def unidentified (a : SignatureAlgorithm) : Refusal := ⟨.programming, .noIdentifier a⟩

theorem not_isInvalid_unidentified : ¬ (unidentified a).IsInvalid := by
  intro h
  cases h

theorem not_isSignatureError_unidentified : ¬ (unidentified a).isSignatureError = true := by
  intro h
  cases h

theorem onSigning_eq_unidentified_iff : e.onSigning = unidentified a ↔ e = unidentified a := by
  constructor
  · intro h
    by_cases hinvalid : e.IsInvalid
    · rw [hinvalid.onSigning] at h
      cases h
    · rwa [Refusal.onSigning, if_neg (show ¬ e.kind = .invalidRequest from hinvalid)] at h
  · rintro rfl
    rfl

theorem identifierOf_eq_error_iff : identifierOf a = .error e ↔ e = unidentified a ∧ ¬ HasOid a := by
  unfold identifierOf
  rw [← exists_algorithmIdentifier_iff]
  cases a.algorithmIdentifier? with
  | none => simp [unidentified, eq_comm]
  | some i => simp

/-- A refusal that a check can give. -/
def IsExpected (a : SignatureAlgorithm) (e : Refusal) : Prop := e.IsInvalid ∨ e = unidentified a

section Attributes

variable {advanced : Bool} {as : Attributes}

/-- Attributes that come to the check of the protection. -/
structure Presentable (p : Policy) (now : Time.Instant) (advanced : Bool) (as : Attributes) :
    Prop where
  /-- The content is plain data. -/
  contentType : as.FirstValue (fun _ v => Der.readOid "content type" v = .ok Oid.idData)
    Oid.contentType
  messageDigest : as.Has Oid.messageDigest
  /-- The time of signing lies in the window. -/
  time : advanced = false → as.FirstValue (fun _ v => ∃ time, SigningTime.ofDer v = .ok time ∧
    (Time.Window.around now p.messageAge p.clockSkew).Contains time) Oid.signingTime
  noTime : advanced = true → p.strict = true → ¬ as.Has Oid.signingTime

theorem presentable_iff :
    Presentable p now advanced as
      ↔ checkContentType as = .ok () ∧ checkMessageDigest as = .ok () ∧
        checkTime p now advanced as = .ok () := by
  rw [checkContentType_eq_ok_iff, checkMessageDigest_eq_ok_iff, checkTime_eq_ok_iff_of_any]
  simp only [isTimely_iff]
  constructor
  · intro h
    exact ⟨h.contentType, h.messageDigest, h.noTime, h.time⟩
  · rintro ⟨hcontent, hdigest, hnoTime, htime⟩
    exact ⟨hcontent, hdigest, htime, hnoTime⟩

theorem checkPresentable_eq_ok_iff :
    checkPresentable p now advanced as = .ok () ↔ Presentable p now advanced as := by
  rw [presentable_iff]
  constructor
  · intro h
    obtain ⟨⟨⟩, hcontent, h⟩ := Except.bind_eq_ok.mp h
    obtain ⟨⟨⟩, hdigest, htime⟩ := Except.bind_eq_ok.mp h
    exact ⟨Except.mapError_eq_ok.mp hcontent, Except.mapError_eq_ok.mp hdigest, htime⟩
  · rintro ⟨hcontent, hdigest, htime⟩
    exact Except.bind_eq_ok.mpr ⟨(), Except.mapError_eq_ok.mpr hcontent,
      Except.bind_eq_ok.mpr ⟨(), Except.mapError_eq_ok.mpr hdigest, htime⟩⟩

theorem checkTime_failsOnly : FailsOnly Refusal.IsInvalid (checkTime p now advanced as) := by
  unfold checkTime
  split
  next =>
    split
    next => exact .error rfl
    next => exact .ok
  next => exact .ok
  next => exact .error rfl
  next => exact .bind (.of_mapError fun _ => rfl) fun _ => Policy.checkTime_failsOnly

theorem checkPresentable_failsOnly :
    FailsOnly Refusal.IsInvalid (checkPresentable p now advanced as) :=
  .bind (.of_mapError fun _ => rfl) fun _ => .bind (.of_mapError fun _ => rfl) fun _ =>
    checkTime_failsOnly

/-- With an identifier, a protection fails by what the client has sent. -/
theorem checkProtectionAttribute_failsOnly {b : Attribute} (hoid : HasOid a) :
    FailsOnly Refusal.IsInvalid (checkProtectionAttribute b a) := by
  obtain ⟨i, hi⟩ := exists_algorithmIdentifier_iff.mpr hoid
  rw [checkProtectionAttribute, identifierOf_eq_ok_iff.mpr hi, Except.ok_bind]
  exact .bind (.of_mapError fun _ => rfl) fun q => .of_mapError fun _ => rfl

/-- Without an identifier, it fails for want of it before it is read. -/
theorem checkProtectionAttribute_of_not_hasOid {b : Attribute} (hoid : ¬ HasOid a) :
    checkProtectionAttribute b a = .error (unidentified a) := by
  rw [checkProtectionAttribute, identifierOf_eq_error_iff.mpr ⟨rfl, hoid⟩]
  rfl

theorem checkProtection_failsOnly : FailsOnly (IsExpected a) (checkProtection a as) := by
  unfold checkProtection
  split
  next => exact .ok
  next found hfound =>
    by_cases hoid : HasOid a
    · exact (checkProtectionAttribute_failsOnly hoid).imp fun _ => Or.inl
    · rw [checkProtectionAttribute_of_not_hasOid hoid]
      exact .error (Or.inr rfl)

theorem checkProtection_eq_unidentified_iff :
    checkProtection a as = .error (unidentified a)
      ↔ as.Has Oid.algorithmProtection ∧ ¬ HasOid a := by
  unfold checkProtection
  rw [← Attributes.find?_isSome_iff]
  cases as.find? Oid.algorithmProtection with
  | none => simp
  | some b =>
      constructor
      · intro h
        refine ⟨rfl, fun hoid => ?_⟩
        exact not_isInvalid_unidentified (checkProtectionAttribute_failsOnly hoid _ h)
      · rintro ⟨-, hoid⟩
        exact checkProtectionAttribute_of_not_hasOid hoid

theorem checkAttributes_eq_unidentified_iff :
    checkAttributes p now advanced a as = .error (unidentified a)
      ↔ Presentable p now advanced as ∧ as.Has Oid.algorithmProtection ∧ ¬ HasOid a := by
  rw [checkAttributes,
    checkPresentable_failsOnly.bind_eq_error_iff not_isInvalid_unidentified,
    ← checkPresentable_eq_ok_iff, ← checkProtection_eq_unidentified_iff]
  constructor
  · rintro ⟨⟨⟩, h⟩
    exact h
  · intro h
    exact ⟨(), h⟩

theorem checkAttributes_failsOnly :
    FailsOnly (IsExpected a) (checkAttributes p now advanced a as) :=
  .bind (checkPresentable_failsOnly.imp fun _ => Or.inl) fun _ => checkProtection_failsOnly

theorem build_eq_error_iff :
    build p advanced c a as = .error e ↔ advanced = true ∧ e = unidentified a ∧ ¬ HasOid a := by
  unfold build
  cases advanced with
  | true =>
      rw [if_pos rfl, Except.map_eq_error, identifierOf_eq_error_iff]
      simp
  | false =>
      rw [if_neg Bool.false_ne_true]
      split
      next => simp
      next => simp

end Attributes

section Request

/-- A request with a protection that is compared with the algorithm. -/
def Compared (p : Policy) (now : Time.Instant) (r : Request) : Prop :=
  ∃ as, Lists r as ∧ r.type ≠ none ∧ Presentable p now r.profile.isAdvanced as ∧
    as.Has Oid.algorithmProtection

/-- A request for an advanced signature, to whose attributes a protection is added. -/
def Extended (p : Policy) (now : Time.Instant) (r : Request) : Prop :=
  ∃ as, Lists r as ∧ r.type = some .pdf ∧ (∀ uri ∈ r.rule, uri ∈ p.supportedRules) ∧
    Presentable p now r.profile.isAdvanced as ∧ r.profile.isAdvanced = true

/-- Without its data and type, a request is refused as an invalid one. -/
theorem check_eq_error_iff (he : ¬ e.IsInvalid) :
    check p now r a = .error e
      ↔ ∃ as, Lists r as ∧ r.type ≠ none ∧
        checkAttributes p now r.profile.isAdvanced a as = .error e := by
  constructor
  · intro h
    obtain ⟨essentials, hessentials, hrest⟩ :=
      (Request.essentials_failsOnly.bind_eq_error_iff he).mp h
    have hread : FailsOnly Refusal.IsInvalid
        ((Attributes.ofDer essentials.data).mapError fun error => invalid (.unreadable error)) :=
      .of_mapError fun _ => rfl
    obtain ⟨as, has, -⟩ := (hread.bind_eq_error_iff he).mp hrest
    obtain ⟨hdata, htype⟩ := Request.essentials_eq_ok_iff.mp hessentials
    have hlists : Lists r as := ⟨_, hdata, Except.mapError_eq_ok.mp has⟩
    rw [check_eq_of_lists hlists htype, Except.map_eq_error] at h
    exact ⟨as, hlists, by simp [htype], h⟩
  · rintro ⟨as, hlists, htype, h⟩
    obtain ⟨type, htype⟩ := Option.ne_none_iff_exists'.mp htype
    rwa [check_eq_of_lists hlists htype, Except.map_eq_error]

theorem check_failsOnly : FailsOnly (IsExpected a) (check p now r a) := by
  intro e h
  by_cases he : e.IsInvalid
  · exact Or.inl he
  · obtain ⟨as, -, -, hattributes⟩ := (check_eq_error_iff he).mp h
    exact checkAttributes_failsOnly e hattributes

theorem check_eq_unidentified_iff :
    check p now r a = .error (unidentified a) ↔ ¬ HasOid a ∧ Compared p now r := by
  rw [check_eq_error_iff not_isInvalid_unidentified]
  simp only [checkAttributes_eq_unidentified_iff]
  constructor
  · rintro ⟨as, hlists, htype, hpresentable, hhas, hoid⟩
    exact ⟨hoid, as, hlists, htype, hpresentable, hhas⟩
  · rintro ⟨hoid, as, hlists, htype, hpresentable, hhas⟩
    exact ⟨as, hlists, htype, hpresentable, hhas, hoid⟩

theorem prepare_of_check_eq_error (h : check p now r a = .error e) :
    prepare p now r c a = .error e.onSigning := by
  rw [prepare, h]
  rfl

theorem prepare_failsOnly :
    FailsOnly (fun e => e.isSignatureError = true ∨ e = unidentified a) (prepare p now r c a) := by
  refine .bind (check_failsOnly.mapError ?_) fun checked => ?_
  · rintro e (hinvalid | rfl)
    · rw [hinvalid.onSigning]
      exact Or.inl rfl
    · exact Or.inr rfl
  refine .bind (Policy.allow_failsOnly.imp fun _ => Or.inl) fun _ => ?_
  exact .bind (fun e he => Or.inr (build_eq_error_iff.mp he).2.1) fun _ => .ok

theorem prepare_of_compared (hoid : ¬ HasOid a) (h : Compared p now r) :
    prepare p now r c a = .error (unidentified a) :=
  prepare_of_check_eq_error (check_eq_unidentified_iff.mpr ⟨hoid, h⟩)

/-- Attributes to which a protection is added either have one already, which is compared
first, or pass the check. -/
theorem prepare_of_extended (hoid : ¬ HasOid a) (h : Extended p now r) :
    prepare p now r c a = .error (unidentified a) := by
  obtain ⟨as, hlists, htype, hrule, hpresentable, hadvanced⟩ := h
  by_cases hhas : as.Has Oid.algorithmProtection
  · exact prepare_of_compared hoid ⟨as, hlists, by simp [htype], hpresentable, hhas⟩
  · have hcheck : checkAttributes p now r.profile.isAdvanced a as = .ok () := by
      rw [checkAttributes, checkPresentable_eq_ok_iff.mpr hpresentable, Except.ok_bind]
      exact checkProtection_eq_ok_iff.mpr fun h => absurd h hhas
    have hallow : p.allow r.rule .pdf .pdf = .ok () := Policy.allow_eq_ok_iff.mpr ⟨hrule, rfl⟩
    have hbuild : build p r.profile.isAdvanced c a as = .error (unidentified a) :=
      build_eq_error_iff.mpr ⟨hadvanced, rfl, hoid⟩
    rw [prepare_eq_of_lists hlists htype, hcheck, hallow, hbuild]
    rfl

/-- The identifier is missed where a protection is compared, or else where one is added. -/
theorem prepare_eq_unidentified_iff :
    prepare p now r c a = .error (unidentified a)
      ↔ ¬ HasOid a ∧ (Compared p now r ∨ Extended p now r) := by
  constructor
  · intro h
    cases hcheck : check p now r a with
    | error e =>
        rw [prepare_of_check_eq_error hcheck] at h
        cases onSigning_eq_unidentified_iff.mp (Except.error.inj h)
        obtain ⟨hoid, hcompared⟩ := check_eq_unidentified_iff.mp hcheck
        exact ⟨hoid, Or.inl hcompared⟩
    | ok checked =>
        obtain ⟨htype, data, hdata, has, hcontent, hdigest, htime, -⟩ := check_eq_ok_iff.mp hcheck
        rw [prepare, hcheck] at h
        obtain ⟨⟨⟩, hallow, h⟩ :=
          (Policy.allow_failsOnly.bind_eq_error_iff not_isSignatureError_unidentified).mp h
        obtain ⟨hrule, hpdf⟩ := Policy.allow_eq_ok_iff.mp hallow
        have hbuild : build p r.profile.isAdvanced c a checked.attributes
            = .error (unidentified a) := Except.map_eq_error.mp (Except.map_eq_bind.trans h)
        obtain ⟨hadvanced, -, hoid⟩ := build_eq_error_iff.mp hbuild
        exact ⟨hoid, Or.inr ⟨_, ⟨data, hdata, has⟩, hpdf ▸ htype, hrule,
          presentable_iff.mpr ⟨hcontent, hdigest, htime⟩, hadvanced⟩⟩
  · rintro ⟨hoid, hcompared | hextended⟩
    · exact prepare_of_compared hoid hcompared
    · exact prepare_of_extended hoid hextended

end Request

end Cms

/-! ## Signed information -/

namespace SignedInfo

theorem readObject_failsOnly : FailsOnly Refusal.IsInvalid (readObject p now r) := by
  unfold readObject
  split
  next => exact .ok
  next =>
    refine .bind (.of_mapError fun _ => rfl) fun o => .bind (.of_mapError fun _ => rfl) ?_
    intro claimed
    cases claimed with
    | none => exact .ok
    | some time => exact .bind Policy.checkTime_failsOnly fun _ => .ok

theorem check_failsOnly : FailsOnly Refusal.IsInvalid (check p now r a) := by
  refine .bind Request.essentials_failsOnly fun essentials => ?_
  refine .bind (.of_mapError fun _ => rfl) fun id => ?_
  refine .bind readObject_failsOnly fun object => ?_
  refine .bind (.of_mapError fun _ => rfl) fun element => ?_
  refine .bind (.of_mapError fun _ => rfl) fun _ => ?_
  exact .bind (.of_mapError fun _ => rfl) fun _ => .ok

theorem prepare_of_check_eq_error (h : check p now r a = .error e) :
    prepare p now r c a = .error e.onSigning := by
  rw [prepare, h]
  rfl

theorem prepare_failsOnly : FailsOnly (·.isSignatureError = true) (prepare p now r c a) := by
  refine .bind (check_failsOnly.mapError fun e hinvalid => ?_) fun checked => ?_
  · rw [hinvalid.onSigning]
    rfl
  refine .bind Policy.allow_failsOnly fun _ => ?_
  cases checked.advancedId with
  | none => exact .ok
  | some id => exact .bind (.of_mapError fun _ => rfl) fun _ => .ok

end SignedInfo

/-! ## Both preparers -/

namespace Preparer

variable {preparer : Preparer}

/-- A preparation of a request that does not pass the check fails for the same cause. -/
theorem prepare_of_check_eq_error (h : preparer.check p now r a = .error e) :
    preparer.prepare p now r c a = .error e.onSigning := by
  cases preparer with
  | xml => exact SignedInfo.prepare_of_check_eq_error (Except.map_eq_error.mp h)
  | pdf => exact Cms.prepare_of_check_eq_error (Except.map_eq_error.mp h)

theorem check_failsOnly : FailsOnly (Cms.IsExpected a) (preparer.check p now r a) := by
  cases preparer with
  | xml => exact (SignedInfo.check_failsOnly.imp fun _ => Or.inl).map
  | pdf => exact Cms.check_failsOnly.map

theorem check_eq_unidentified_iff :
    preparer.check p now r a = .error (Cms.unidentified a)
      ↔ preparer = .pdf ∧ ¬ Cms.HasOid a ∧ Cms.Compared p now r := by
  cases preparer with
  | xml =>
      constructor
      · intro h
        exact absurd (SignedInfo.check_failsOnly.map _ h) Cms.not_isInvalid_unidentified
      · rintro ⟨h, -⟩
        cases h
  | pdf =>
      rw [check, Except.map_eq_error, Cms.check_eq_unidentified_iff]
      simp

theorem prepare_failsOnly :
    FailsOnly (fun e => e.isSignatureError = true ∨ e = Cms.unidentified a)
      (preparer.prepare p now r c a) := by
  cases preparer with
  | xml => exact SignedInfo.prepare_failsOnly.imp fun _ => Or.inl
  | pdf => exact Cms.prepare_failsOnly

theorem prepare_eq_unidentified_iff :
    preparer.prepare p now r c a = .error (Cms.unidentified a)
      ↔ preparer = .pdf ∧ ¬ Cms.HasOid a ∧ (Cms.Compared p now r ∨ Cms.Extended p now r) := by
  cases preparer with
  | xml =>
      constructor
      · intro h
        exact absurd (SignedInfo.prepare_failsOnly _ h) Cms.not_isSignatureError_unidentified
      · rintro ⟨h, -⟩
        cases h
  | pdf =>
      rw [prepare, Cms.prepare_eq_unidentified_iff]
      simp

/-- A check fails by an invalid request and a preparation by a signature error with the same
cause, or either fails for want of the identifier of the algorithm. -/
theorem refusal_kinds (preparer : Preparer) (p : Policy) (now : Time.Instant) (r : Request)
    (c : Certificate) (a : SignatureAlgorithm) :
    (∀ e, preparer.check p now r a = .error e →
      e.kind = .invalidRequest ∨ e = Cms.unidentified a) ∧
    (preparer.check p now r a = .error (Cms.unidentified a)
      ↔ preparer = .pdf ∧ ¬ Cms.HasOid a ∧ Cms.Compared p now r) ∧
    (∀ e, preparer.prepare p now r c a = .error e →
      e.isSignatureError = true ∨ e = Cms.unidentified a) ∧
    (preparer.prepare p now r c a = .error (Cms.unidentified a)
      ↔ preparer = .pdf ∧ ¬ Cms.HasOid a ∧ (Cms.Compared p now r ∨ Cms.Extended p now r)) ∧
    ∀ e, preparer.check p now r a = .error e → e.kind = .invalidRequest →
      preparer.prepare p now r c a = .error (.violation e.cause) := by
  refine ⟨check_failsOnly, check_eq_unidentified_iff, prepare_failsOnly,
    prepare_eq_unidentified_iff, fun e h hkind => ?_⟩
  have hinvalid : e.IsInvalid := hkind
  rw [prepare_of_check_eq_error h, hinvalid.onSigning]

/-- An algorithm without an object identifier. -/
def unnamedAlgorithm : SignatureAlgorithm := ⟨"urn:unnamed", .ec, .sha256, 5, none⟩

/-- For want of the identifier, both phases refuse the request with two protections, neither as
an invalid request nor as a signature error. -/
theorem refusal_kinds_unnamed :
    ∃ e, Preparer.pdf.check {} ⟨1654724214, 0, by decide⟩ Cms.substitutedRequest unnamedAlgorithm
        = .error e ∧
      Preparer.pdf.prepare {} ⟨1654724214, 0, by decide⟩ Cms.substitutedRequest
        shortCertificate unnamedAlgorithm = .error e ∧
      e.kind ≠ .invalidRequest ∧ e.isSignatureError = false := by
  have hcheck : Preparer.pdf.check {} ⟨1654724214, 0, by decide⟩ Cms.substitutedRequest
      unnamedAlgorithm = .error (Cms.unidentified unnamedAlgorithm) := by decide +kernel
  exact ⟨_, hcheck, prepare_of_check_eq_error hcheck, Cms.not_isInvalid_unidentified, rfl⟩

end Preparer

end Presign

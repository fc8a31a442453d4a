import Presign.Preparer
import Presign.Proofs.Cms.Acceptance
import Presign.Proofs.Cms.Rules

/-!
# Relaxed policies

A policy that allows more grants every request that a narrower one grants, and prepares
the same data for it (`Preparer.prepare_eq_ok_of_relaxesTo`).  What is prepared depends on the
policy only in whether references to certificates hold issuer and serial number.  All else
in a policy decides whether a request is granted: the rules are looked up, a strict policy
refuses what a lax one mends, and the window for claimed times grows with the age and the
tolerance.
-/

namespace Presign

/-- A policy and one that allows no less.  Both make the same references to certificates. -/
structure Policy.RelaxesTo (p q : Policy) : Prop where
  includeIssuerSerial : q.includeIssuerSerial = p.includeIssuerSerial
  strict : q.strict = true → p.strict = true
  clockSkew : p.clockSkew ≤ q.clockSkew
  messageAge : p.messageAge ≤ q.messageAge
  supportedRules : p.supportedRules ⊆ q.supportedRules

variable {p q : Policy} {now : Time.Instant} {r : Request} {c : Certificate}
  {a : SignatureAlgorithm} {out : Prepared}

namespace Policy.RelaxesTo

theorem contains_window (h : p.RelaxesTo q) (hnow : now.InRange) {claimed : Time.Instant}
    (hclaimed : (Time.Window.around now p.messageAge p.clockSkew).Contains claimed) :
    (Time.Window.around now q.messageAge q.clockSkew).Contains claimed :=
  hclaimed.mono hnow h.messageAge h.clockSkew

theorem checkTime (h : p.RelaxesTo q) (hnow : now.InRange) {claimed : Time.Instant}
    (hclaimed : p.checkTime now claimed = .ok ()) : q.checkTime now claimed = .ok () := by
  rw [Policy.checkTime, Except.mapError_eq_ok, Time.Window.check_eq_ok_iff] at hclaimed ⊢
  exact h.contains_window hnow hclaimed

theorem mem_supportedRules (h : p.RelaxesTo q) {rule : Option String}
    (hrule : ∀ uri ∈ rule, uri ∈ p.supportedRules) : ∀ uri ∈ rule, uri ∈ q.supportedRules :=
  fun uri huri => h.supportedRules (hrule uri huri)

end Policy.RelaxesTo

/-! ## Signed attributes -/

namespace Cms

variable {advanced : Bool} {as : Attributes}

theorem Acceptable.relaxed (h : Acceptable p now advanced a as) (hpq : p.RelaxesTo q)
    (hnow : now.InRange) : Acceptable q now advanced a as where
  contentType := h.contentType
  messageDigest := h.messageDigest
  time hadvanced := (h.time hadvanced).imp fun _ ⟨time, hread, hcontains⟩ =>
    ⟨time, hread, hpq.contains_window hnow hcontains⟩
  noTime hadvanced hstrict := h.noTime hadvanced (hpq.strict hstrict)
  protection := h.protection
  identifier := h.identifier

/-- What is built depends on the policy only in what a reference to a certificate holds. -/
theorem build_congr (h : q.includeIssuerSerial = p.includeIssuerSerial) :
    build q advanced c a as = build p advanced c a as := by
  unfold build advance withCertificate
  rw [h]

theorem prepare_of_relaxesTo (hpq : p.RelaxesTo q) (hnow : now.InRange)
    (h : prepare p now r c a = .ok out) : prepare q now r c a = .ok out := by
  obtain ⟨data, as, -, hdata, has, -⟩ := build_of_prepare h
  rw [prepare_eq_ok_iff_of_ofDer hdata has] at h ⊢
  obtain ⟨htype, hrule, hgood, hbuild⟩ := h
  rw [← build_congr hpq.includeIssuerSerial] at hbuild
  exact ⟨htype, hpq.mem_supportedRules hrule, hgood.relaxed hpq hnow, hbuild⟩

end Cms

/-! ## Signed information -/

namespace SignedInfo

variable {checked : Checked} {object : Option Xades.Object}

theorem readObject_of_relaxesTo (hpq : p.RelaxesTo q) (hnow : now.InRange)
    (h : readObject p now r = .ok object) : readObject q now r = .ok object := by
  unfold readObject at h ⊢
  split at h
  next => exact h
  next =>
    obtain ⟨o, ho, h⟩ := Except.bind_eq_ok.mp h
    obtain ⟨claimed, hclaimed, h⟩ := Except.bind_eq_ok.mp h
    refine Except.bind_eq_ok.mpr ⟨o, ho, Except.bind_eq_ok.mpr ⟨claimed, hclaimed, ?_⟩⟩
    cases claimed with
    | none => exact h
    | some time =>
        obtain ⟨⟨⟩, htime, h⟩ := Except.bind_eq_ok.mp h
        exact Except.bind_eq_ok.mpr ⟨(), hpq.checkTime hnow htime, h⟩

/-- A check depends on the policy only in the window for a time that the object claims. -/
theorem check_of_relaxesTo (hpq : p.RelaxesTo q) (hnow : now.InRange)
    (h : check p now r a = .ok checked) : check q now r a = .ok checked := by
  obtain ⟨essentials, hessentials, h⟩ := Except.bind_eq_ok.mp h
  obtain ⟨id, hid, h⟩ := Except.bind_eq_ok.mp h
  obtain ⟨object, hobject, h⟩ := Except.bind_eq_ok.mp h
  exact Except.bind_eq_ok.mpr ⟨essentials, hessentials, Except.bind_eq_ok.mpr ⟨id, hid,
    Except.bind_eq_ok.mpr ⟨object, readObject_of_relaxesTo hpq hnow hobject, h⟩⟩⟩

theorem updateFor_congr (h : q.includeIssuerSerial = p.includeIssuerSerial) (id : String)
    (data : Octets) : updateFor q now c a id data = updateFor p now c a id data := by
  unfold updateFor
  rw [h]

theorem build_of_relaxesTo (hpq : p.RelaxesTo q) {id : String} {built : Octets × AdesObject}
    (h : build p now c a checked id = .ok built) : build q now c a checked id = .ok built := by
  unfold build at h ⊢
  rw [updateFor_congr hpq.includeIssuerSerial]
  dsimp only at h ⊢
  split at h
  next => cases h
  next hlax => rwa [if_neg fun hstrict => hlax ⟨hpq.strict hstrict.1, hstrict.2⟩]

theorem prepare_of_relaxesTo (hpq : p.RelaxesTo q) (hnow : now.InRange)
    (h : prepare p now r c a = .ok out) : prepare q now r c a = .ok out := by
  obtain ⟨checked, hcheck, h⟩ := Except.bind_eq_ok.mp h
  obtain ⟨⟨⟩, hallow, h⟩ := Except.bind_eq_ok.mp h
  rw [Except.mapError_eq_ok] at hcheck
  obtain ⟨hrule, htype⟩ := Policy.allow_eq_ok_iff.mp hallow
  refine Except.bind_eq_ok.mpr ⟨checked,
    Except.mapError_eq_ok.mpr (check_of_relaxesTo hpq hnow hcheck), Except.bind_eq_ok.mpr
      ⟨(), Policy.allow_eq_ok_iff.mpr ⟨hpq.mem_supportedRules hrule, htype⟩, ?_⟩⟩
  cases hid : checked.advancedId with
  | none =>
      rw [hid] at h
      exact h
  | some id =>
      rw [hid] at h
      obtain ⟨built, hbuild, h⟩ := Except.bind_eq_ok.mp h
      rw [Except.mapError_eq_ok] at hbuild
      exact Except.bind_eq_ok.mpr
        ⟨built, Except.mapError_eq_ok.mpr (build_of_relaxesTo hpq hbuild), h⟩

end SignedInfo

/-- What is prepared under a policy, at a time that a clock can show, is prepared under one that
allows no less, too. -/
theorem Preparer.prepare_eq_ok_of_relaxesTo {preparer : Preparer} (hpq : p.RelaxesTo q)
    (hnow : now.InRange) (h : preparer.prepare p now r c a = .ok out) :
    preparer.prepare q now r c a = .ok out := by
  cases preparer with
  | xml => exact SignedInfo.prepare_of_relaxesTo hpq hnow h
  | pdf => exact Cms.prepare_of_relaxesTo hpq hnow h

/-- A policy that is strict and allows little time. -/
def narrowPolicy : Policy :=
  { strict := true, clockSkew := Time.ofSeconds 5, messageAge := Time.ofSeconds 90 }

/-- A policy that mends input and, within the clock, allows any time. -/
def widePolicy : Policy :=
  { supportedRules := ["urn:rule"], clockSkew := Time.ofSeconds (2 ^ 64 - 1),
    messageAge := Time.ofSeconds (2 ^ 64 - 1) }

theorem narrowPolicy_relaxesTo : narrowPolicy.RelaxesTo widePolicy where
  includeIssuerSerial := rfl
  strict h := by cases h
  clockSkew := by decide
  messageAge := by decide
  supportedRules _ h := by cases h

/-- A time at which the request with two protections is 86 seconds old. -/
def lateMoment : Time.Instant := ⟨1654724300, 0, by decide⟩

theorem inRange_lateMoment : lateMoment.InRange := by
  unfold Time.Instant.InRange
  decide

/-- For example, a request that is granted near the end of a narrow window is granted alike under
the wide policy, whose window has no ends. -/
theorem Preparer.prepare_eq_ok_of_relaxesTo_wide :
    ∃ out, Preparer.pdf.prepare narrowPolicy lateMoment Cms.substitutedRequest
        shortCertificate ecdsaSha256 = .ok out ∧
      Preparer.pdf.prepare widePolicy lateMoment Cms.substitutedRequest
        shortCertificate ecdsaSha256 = .ok out := by
  have hok : (Preparer.pdf.prepare narrowPolicy lateMoment Cms.substitutedRequest
      shortCertificate ecdsaSha256).isOk = true := by decide +kernel
  obtain ⟨out, h⟩ := Except.isOk_iff.mp hok
  exact ⟨out, h, prepare_eq_ok_of_relaxesTo narrowPolicy_relaxesTo inRange_lateMoment h⟩

end Presign

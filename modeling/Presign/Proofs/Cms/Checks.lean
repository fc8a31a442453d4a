import Presign.Cms.Preparation
import Presign.Proofs.Except
import Presign.Proofs.Time.Window

/-!
# What each check asks for

A check looks for the first attribute of a type, and at the first of its values.
`Attributes.FirstValue` says that both are there and that the value satisfies a
condition.  With it each check is an equivalence: it passes exactly if the condition
holds.
-/

namespace Presign.Cms

/-! ## First attributes and values -/

/-- Attributes of which the first of a type has a first value, which satisfies a
condition. -/
def Attributes.FirstValue (rule : Oid → Octets → Prop) (as : Attributes) (type : Oid) : Prop :=
  ∃ b v, as.find? type = some b ∧ b.values.head? = some v ∧ rule type v

/-- Attributes with one of a type. -/
def Attributes.Has (as : Attributes) (type : Oid) : Prop := ∃ b ∈ as, b.type = type

theorem Attributes.find?_isSome_iff {as : Attributes} {type : Oid} :
    (as.find? type).isSome = true ↔ as.Has type := by
  rw [find?, List.find?_isSome]
  simp [Has]

theorem Attributes.find?_eq_none_iff {as : Attributes} {type : Oid} :
    as.find? type = none ↔ ¬ as.Has type := by
  rw [← find?_isSome_iff, Option.not_isSome_iff_eq_none]

theorem Attributes.of_find? {as : Attributes} {type : Oid} {b : Attribute}
    (h : as.find? type = some b) : b ∈ as ∧ b.type = type :=
  ⟨List.mem_of_find?_eq_some h, by simpa using List.find?_some h⟩

theorem Attributes.FirstValue.has {rule : Oid → Octets → Prop} {as : Attributes} {type : Oid}
    (h : as.FirstValue rule type) : as.Has type := by
  obtain ⟨b, v, hb, -⟩ := h
  exact find?_isSome_iff.mp (by rw [hb]; rfl)

theorem Attributes.FirstValue.imp {rule rule' : Oid → Octets → Prop} {as : Attributes} {type : Oid}
    (h : as.FirstValue rule type) (hrule : ∀ v, rule type v → rule' type v) :
    as.FirstValue rule' type := by
  obtain ⟨b, v, hb, hv, hr⟩ := h
  exact ⟨b, v, hb, hv, hrule v hr⟩

/-! ## Values -/

/-- A value that is a protection of the digest method and the signature algorithm of
an algorithm. -/
def Protects (a : SignatureAlgorithm) (value : Octets) : Prop :=
  ∃ i q s, a.algorithmIdentifier? = some i ∧ Protection.ofDer value = .ok q ∧
    q.digest.algorithm = a.digest.oid ∧ q.signature = some s ∧ s.algorithm = i.algorithm

/-- A value that is a time inside the window. -/
def IsTimely (p : Policy) (now : Time.Instant) (value : Octets) : Prop :=
  ∃ time, SigningTime.ofDer value = .ok time ∧
    (Time.Window.around now p.messageAge p.clockSkew).check time = .ok ()

theorem timeOf_eq_ok_iff {b : Attribute} {time : Time.Instant} :
    timeOf b = .ok time ↔ ∃ v, b.values.head? = some v ∧ SigningTime.ofDer v = .ok time := by
  unfold timeOf
  cases b.values.head? with
  | none => simp
  | some v =>
      rw [Option.map_some]
      cases hread : SigningTime.ofDer v with
      | error e => simp [hread]
      | ok time' => simp [hread]

variable {p : Policy} {now : Time.Instant} {advanced : Bool} {a : SignatureAlgorithm}

theorem identifierOf_eq_ok_iff {i : AlgorithmIdentifier} :
    identifierOf a = .ok i ↔ a.algorithmIdentifier? = some i := by
  unfold identifierOf
  cases a.algorithmIdentifier? with
  | none => simp
  | some j => simp

theorem Protection.check_eq_ok_iff {q : Protection} {i : AlgorithmIdentifier} :
    q.check a i = .ok ()
      ↔ q.digest.algorithm = a.digest.oid ∧
        ∃ s, q.signature = some s ∧ s.algorithm = i.algorithm := by
  unfold Protection.check
  by_cases hdigest : q.digest.algorithm = a.digest.oid
  · cases hs : q.signature with
    | none => simp [hdigest]
    | some s => simp [hdigest, AlgorithmIdentifier.sameAlgorithm]
  · simp [hdigest]

theorem Protection.ofAttribute_eq_ok_iff {b : Attribute} {q : Protection} :
    Protection.ofAttribute b = .ok q
      ↔ ∃ v, b.values.head? = some v ∧ Protection.ofDer v = .ok q := by
  unfold Protection.ofAttribute
  cases b.values with
  | nil => simp
  | cons v vs => simp

theorem checkProtectionAttribute_eq_ok_iff {b : Attribute} :
    checkProtectionAttribute b a = .ok () ↔ ∃ v, b.values.head? = some v ∧ Protects a v := by
  rw [checkProtectionAttribute, Except.bind_eq_ok]
  constructor
  · rintro ⟨i, hi, h⟩
    obtain ⟨q, hq, h⟩ := Except.bind_eq_ok.mp h
    rw [Except.mapError_eq_ok] at hq h
    obtain ⟨v, hv, hread⟩ := Protection.ofAttribute_eq_ok_iff.mp hq
    obtain ⟨hdigest, s, hs, hsame⟩ := Protection.check_eq_ok_iff.mp h
    exact ⟨v, hv, i, q, s, identifierOf_eq_ok_iff.mp hi, hread, hdigest, hs, hsame⟩
  · rintro ⟨v, hv, i, q, s, hi, hread, hdigest, hs, hsame⟩
    refine ⟨i, identifierOf_eq_ok_iff.mpr hi, Except.bind_eq_ok.mpr ⟨q, ?_, ?_⟩⟩
    · exact Except.mapError_eq_ok.mpr (Protection.ofAttribute_eq_ok_iff.mpr ⟨v, hv, hread⟩)
    · exact Except.mapError_eq_ok.mpr (Protection.check_eq_ok_iff.mpr ⟨hdigest, s, hs, hsame⟩)

/-! ## Checks -/

variable {as : Attributes}

theorem checkContentType_eq_ok_iff :
    checkContentType as = .ok ()
      ↔ as.FirstValue (fun _ v => Der.readOid "content type" v = .ok Oid.idData)
        Oid.contentType := by
  unfold checkContentType Attributes.FirstValue
  cases as.find? Oid.contentType with
  | none => simp
  | some b =>
      cases hv : b.values.head? with
      | none => simp [hv]
      | some v =>
          cases hread : Der.readOid "content type" v with
          | error e => simp [hv, hread]
          | ok type => simp [hv, hread]

theorem checkMessageDigest_eq_ok_iff :
    checkMessageDigest as = .ok () ↔ as.Has Oid.messageDigest := by
  rw [checkMessageDigest, ← Attributes.find?_isSome_iff]
  split
  next h => simp [h]
  next h => simp [h]

/-- The time of signing of an advanced signature is not looked at, unless it may not be
there. -/
theorem checkTime_eq_ok_iff_of_advanced :
    checkTime p now true as = .ok () ↔ (p.strict = true → ¬ as.Has Oid.signingTime) := by
  unfold checkTime
  cases hb : as.find? Oid.signingTime with
  | none => simp [Attributes.find?_eq_none_iff.mp hb]
  | some b =>
      have hhas : as.Has Oid.signingTime := Attributes.find?_isSome_iff.mp (by rw [hb]; rfl)
      cases hstrict : p.strict with
      | false => simp
      | true => simp [hhas]

theorem checkTime_eq_ok_iff :
    checkTime p now false as = .ok ()
      ↔ as.FirstValue (fun _ v => IsTimely p now v) Oid.signingTime := by
  unfold checkTime Attributes.FirstValue
  cases as.find? Oid.signingTime with
  | none => simp
  | some b =>
      dsimp only
      rw [Except.bind_eq_ok]
      constructor
      · rintro ⟨time, htime, hcheck⟩
        rw [Except.mapError_eq_ok] at htime
        rw [Policy.checkTime, Except.mapError_eq_ok] at hcheck
        obtain ⟨v, hv, hread⟩ := timeOf_eq_ok_iff.mp htime
        exact ⟨b, v, rfl, hv, time, hread, hcheck⟩
      · rintro ⟨b', v, hb, hv, time, hread, hcheck⟩
        cases hb
        exact ⟨time, Except.mapError_eq_ok.mpr (timeOf_eq_ok_iff.mpr ⟨v, hv, hread⟩),
          Except.mapError_eq_ok.mpr hcheck⟩

theorem checkProtection_eq_ok_iff :
    checkProtection a as = .ok ()
      ↔ (as.Has Oid.algorithmProtection →
        as.FirstValue (fun _ v => Protects a v) Oid.algorithmProtection) := by
  unfold checkProtection
  cases hb : as.find? Oid.algorithmProtection with
  | none => simp [Attributes.find?_eq_none_iff.mp hb]
  | some b =>
      have hhas : as.Has Oid.algorithmProtection :=
        Attributes.find?_isSome_iff.mp (by rw [hb]; rfl)
      dsimp only
      rw [checkProtectionAttribute_eq_ok_iff, forall_prop_of_true hhas, Attributes.FirstValue, hb]
      simp

/-! ## All checks -/

/-- The checks before that of the protection. -/
def checkPresentable (p : Policy) (now : Time.Instant) (advanced : Bool) (as : Attributes) :
    Except Refusal Unit := do
  (checkContentType as).mapError invalid
  (checkMessageDigest as).mapError invalid
  checkTime p now advanced as

/-- The checks of attributes, in their order. -/
def checkAttributes (p : Policy) (now : Time.Instant) (advanced : Bool) (a : SignatureAlgorithm)
    (as : Attributes) : Except Refusal Unit := do
  checkPresentable p now advanced as
  checkProtection a as

section Request

variable {r : Request} {c : Certificate} {type : SignatureType}

/-- A request whose data are these attributes. -/
def Lists (r : Request) (as : Attributes) : Prop :=
  ∃ data, r.data = some data ∧ Attributes.ofDer data = .ok as

/-- Of a request with attributes and a type, only the attributes are checked. -/
theorem check_eq_of_lists (has : Lists r as) (htype : r.type = some type) :
    check p now r a
      = (checkAttributes p now r.profile.isAdvanced a as).map fun _ => ⟨type, as⟩ := by
  obtain ⟨data, hdata, hread⟩ := has
  have hessentials : r.essentials = .ok ⟨data, type⟩ := by
    rw [Request.essentials, hdata, htype]
  have hattributes : ((Attributes.ofDer data).mapError fun e => invalid (.unreadable e)) = .ok as :=
    Except.mapError_eq_ok.mpr hread
  rw [check, hessentials, Except.ok_bind, hattributes, Except.ok_bind, checkAttributes,
    checkPresentable, Except.map_eq_bind]
  simp only [bind_assoc]
  rfl

/-- What is answered to a request with attributes and a type. -/
theorem prepare_eq_of_lists (has : Lists r as) (htype : r.type = some type) :
    prepare p now r c a = (do
      (checkAttributes p now r.profile.isAdvanced a as).mapError Refusal.onSigning
      p.allow r.rule type .pdf
      let data ← (build p r.profile.isAdvanced c a as).map Attributes.toDer
      return ⟨data, r.rule, none⟩) := by
  rw [prepare, check_eq_of_lists has htype]
  cases checkAttributes p now r.profile.isAdvanced a as with
  | error e => rfl
  | ok _ =>
      change (p.allow r.rule type .pdf >>= fun _ => _) = (p.allow r.rule type .pdf >>= fun _ => _)
      cases p.allow r.rule type .pdf with
      | error e => rfl
      | ok _ =>
          cases build p r.profile.isAdvanced c a as with
          | error e => rfl
          | ok built => rfl

/-- A request without a type is refused before its attributes are looked at. -/
theorem check_eq_of_noType (has : Lists r as) (htype : r.type = none) :
    check p now r a = .error (.invalid .noType) := by
  obtain ⟨data, hdata, -⟩ := has
  have hessentials : r.essentials = .error (.invalid .noType) := by
    rw [Request.essentials, hdata, htype]
  rw [check, hessentials]
  rfl

end Request

end Presign.Cms

import Presign.Proofs.Cms.Checks
import Presign.Proofs.Cms.SignedSet

/-!
# Which requests are granted

A request for a PDF signature is granted exactly if its attributes are acceptable
(`exists_prepare_iff`).  The checks say when a request is refused.  Making the set to
sign adds one more way: an advanced signature is given a protection, for which the
algorithm needs an object identifier.  A protection that comes with the request needs
one too, since it is compared with it.

An advanced signature does not need a time of signing, and under a strict policy must
not have one.  Any other signature needs one that lies in the window.
-/

namespace Presign.Cms

/-- An algorithm that has an object identifier. -/
def HasOid (a : SignatureAlgorithm) : Prop :=
  ∃ text o, a.oid = some text ∧ Oid.parse? text = some o

/-- Attributes with which a request is granted. -/
structure Acceptable (p : Policy) (now : Time.Instant) (advanced : Bool) (a : SignatureAlgorithm)
    (as : Attributes) : Prop where
  /-- The content is plain data. -/
  contentType : as.FirstValue (fun _ v => Der.readOid "content type" v = .ok Oid.idData)
    Oid.contentType
  messageDigest : as.Has Oid.messageDigest
  /-- The time of signing lies in the window. -/
  time : advanced = false → as.FirstValue (fun _ v => ∃ time, SigningTime.ofDer v = .ok time ∧
    (Time.Window.around now p.messageAge p.clockSkew).Contains time) Oid.signingTime
  noTime : advanced = true → p.strict = true → ¬ as.Has Oid.signingTime
  /-- The algorithms that are protected are those of the request. -/
  protection : as.Has Oid.algorithmProtection →
    as.FirstValue (fun _ v => Protects a v) Oid.algorithmProtection
  identifier : advanced = true ∨ as.Has Oid.algorithmProtection → HasOid a

variable {p : Policy} {now : Time.Instant} {advanced : Bool} {c : Certificate}
  {a : SignatureAlgorithm} {as : Attributes}

theorem exists_algorithmIdentifier_iff : (∃ i, a.algorithmIdentifier? = some i) ↔ HasOid a := by
  constructor
  · rintro ⟨i, hi⟩
    obtain ⟨text, htext, hi⟩ := Option.bind_eq_some_iff.mp hi
    obtain ⟨o, ho, -⟩ := Option.bind_eq_some_iff.mp hi
    exact ⟨text, o, htext, ho⟩
  · rintro ⟨text, o, htext, ho⟩
    exact ⟨_, Option.bind_eq_some_iff.mpr
      ⟨text, htext, Option.bind_eq_some_iff.mpr ⟨o, ho, rfl⟩⟩⟩

theorem isTimely_iff {v : Octets} :
    IsTimely p now v ↔ ∃ time, SigningTime.ofDer v = .ok time ∧
      (Time.Window.around now p.messageAge p.clockSkew).Contains time := by
  simp only [IsTimely, Time.Window.check_eq_ok_iff]

theorem checkTime_eq_ok_iff_of_any :
    checkTime p now advanced as = .ok ()
      ↔ (advanced = true → p.strict = true → ¬ as.Has Oid.signingTime) ∧
        (advanced = false → as.FirstValue (fun _ v => IsTimely p now v) Oid.signingTime) := by
  cases advanced with
  | true => simp [checkTime_eq_ok_iff_of_advanced]
  | false => simp [checkTime_eq_ok_iff]

/-- The set to sign can be made if an advanced signature has an identifier to name. -/
theorem exists_build_iff :
    (∃ built, build p advanced c a as = .ok built) ↔ (advanced = true → HasOid a) := by
  cases advanced with
  | true =>
      rw [← exists_algorithmIdentifier_iff, forall_prop_of_true rfl]
      simp only [build, if_pos, Except.map_eq_ok, identifierOf_eq_ok_iff]
      constructor
      · rintro ⟨built, i, hi, -⟩
        exact ⟨i, hi⟩
      · rintro ⟨i, hi⟩
        exact ⟨_, i, hi, rfl⟩
  | false =>
      rw [build, if_neg Bool.false_ne_true]
      split
      · simp
      · simp

/-- The checks pass and the set can be made exactly if the attributes are acceptable. -/
theorem acceptable_iff :
    Acceptable p now advanced a as
      ↔ checkContentType as = .ok () ∧ checkMessageDigest as = .ok () ∧
        checkTime p now advanced as = .ok () ∧ checkProtection a as = .ok () ∧
        ∃ built, build p advanced c a as = .ok built := by
  rw [checkContentType_eq_ok_iff, checkMessageDigest_eq_ok_iff, checkTime_eq_ok_iff_of_any,
    checkProtection_eq_ok_iff, exists_build_iff]
  simp only [isTimely_iff]
  constructor
  · intro h
    exact ⟨h.contentType, h.messageDigest, ⟨h.noTime, h.time⟩, h.protection,
      fun hadvanced => h.identifier (Or.inl hadvanced)⟩
  · rintro ⟨hcontent, hdigest, ⟨hnoTime, htime⟩, hprotection, hbuild⟩
    refine ⟨hcontent, hdigest, htime, hnoTime, hprotection, ?_⟩
    rintro (hadvanced | hhas)
    · exact hbuild hadvanced
    · -- a protection is compared with the identifier, so there is one
      obtain ⟨_, _, _, _, i, _, _, hi, -⟩ := hprotection hhas
      exact exists_algorithmIdentifier_iff.mp ⟨i, hi⟩

/-- A request whose data are these attributes is granted what is built from them, if they
are acceptable. -/
theorem prepare_eq_ok_iff_of_ofDer {r : Request} {data : Octets} {out : Prepared}
    (hdata : r.data = some data) (has : Attributes.ofDer data = .ok as) :
    prepare p now r c a = .ok out
      ↔ r.type = some .pdf ∧ (∀ uri ∈ r.rule, uri ∈ p.supportedRules) ∧
        Acceptable p now r.profile.isAdvanced a as ∧
        ∃ built, build p r.profile.isAdvanced c a as = .ok built ∧
          out = ⟨built.toDer, r.rule, none⟩ := by
  rw [prepare_eq_ok_iff, acceptable_iff (c := c)]
  constructor
  · rintro ⟨htype, hrule, houtRule, houtObject, data', as', built, h⟩
    cases hdata.symm.trans h.data_eq
    cases has.symm.trans h.read
    refine ⟨htype, hrule, ⟨h.contentType, h.messageDigest, h.time, h.protection, built, h.build⟩,
      built, h.build, ?_⟩
    rw [← h.out_eq, ← houtRule, ← houtObject]
  · rintro ⟨htype, hrule, ⟨hcontent, hdigest, htime, hprotection, -⟩, built, hbuild, rfl⟩
    exact ⟨htype, hrule, rfl, rfl, data, as, built,
      hdata, has, hcontent, hdigest, htime, hprotection, hbuild, rfl⟩

/-- A request is granted exactly if it is one for a PDF signature, under no rule or a
supported one, and its data are acceptable attributes. -/
theorem exists_prepare_iff {r : Request} :
    (∃ out, prepare p now r c a = .ok out)
      ↔ ∃ data as, r.data = some data ∧ r.type = some .pdf ∧
        (∀ uri ∈ r.rule, uri ∈ p.supportedRules) ∧ Attributes.ofDer data = .ok as ∧
        Acceptable p now r.profile.isAdvanced a as := by
  constructor
  · rintro ⟨out, h⟩
    obtain ⟨data, as, -, hdata, has, -⟩ := build_of_prepare h
    obtain ⟨htype, hrule, hgood, -⟩ := (prepare_eq_ok_iff_of_ofDer hdata has).mp h
    exact ⟨data, as, hdata, htype, hrule, has, hgood⟩
  · rintro ⟨data, as, hdata, htype, hrule, has, hgood⟩
    obtain ⟨built, hbuild⟩ := (acceptable_iff (c := c)).mp hgood |>.2.2.2.2
    exact ⟨_, (prepare_eq_ok_iff_of_ofDer hdata has).mpr
      ⟨htype, hrule, hgood, built, hbuild, rfl⟩⟩

end Presign.Cms

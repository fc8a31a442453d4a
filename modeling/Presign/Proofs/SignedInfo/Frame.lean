import Presign.Proofs.SignedInfo.Acceptance
import Presign.Proofs.SignedInfo.Verification

/-!
# What an advanced signature leaves alone

The data to sign of an advanced signature is the canonical form of the client's signed
information, under the client's own method, but for one reference (`prepare_completes`).  The
reference to signed properties is renewed in its place.  If there was none, a new one comes last.
Renewing a reference changes its URI and what it has inside, and nothing else of it
(`Renewed`).  All other nodes stay as they are, in their order (`Completed`).

The checks count the references to signed properties, and covering them looks for the first.  So
it is the only one that is renewed.
-/

namespace Presign.SignedInfo

open Xml (Element Node NoElement CanonicalMethod signatureSpace)

/-- A reference that is another one but for its URI and its children, of which there are exactly
three. -/
structure Renewed (old new : Element) : Prop where
  name : new.name = old.name
  declarations : new.tag.declarations = old.tag.declarations
  attributes : (new.tag.attributes.filter fun a => !Element.isPlain "URI" a)
    = old.tag.attributes.filter fun a => !Element.isPlain "URI" a
  children : ∃ transforms method value : Element, new.children = [↑transforms, ↑method, ↑value] ∧
    transforms.is signatureSpace "Transforms" = true ∧
    method.is signatureSpace "DigestMethod" = true ∧
    value.is signatureSpace "DigestValue" = true

/-- A new reference to signed properties, without a URI and without children. -/
def newReference (qualifier : Option String) : Element :=
  (Element.within signatureSpace qualifier "Reference").setAttribute "Type" Xades.referenceType

/-- Signed information that is another but for its reference to signed properties. -/
inductive Completed (e : Element) : Element → Prop where
  /-- Its only one is renewed in its place. -/
  | renewed {before after : List Node} {old new : Element}
      (split : e.children = before ++ ↑old :: after)
      (isReference : isPropertiesReference old = true)
      (others : NoElement isPropertiesReference (before ++ after))
      (renewed : Renewed old new) :
      Completed e ⟨e.tag, before ++ ↑new :: after⟩
  /-- It had none, and a new one comes last. -/
  | appended {new : Element}
      (none : NoElement isPropertiesReference e.children)
      (isReference : isPropertiesReference new = true)
      (renewed : Renewed (newReference e.name.qualifier) new) :
      Completed e ⟨e.tag, e.children ++ [(new : Node)]⟩

variable {p : Policy} {now : Time.Instant} {r : Request} {c : Certificate} {a : SignatureAlgorithm}
  {e : Element}

theorem renewed_cover (qualifier : Option String) (id : String) (m : DigestMethod)
    (digest : Octets) (old : Element) : Renewed old (cover qualifier id m digest old) where
  name := rfl
  declarations := rfl
  attributes := Element.filter_setIn "URI" ("#" ++ id) old.tag.attributes
  children := by
    refine ⟨transforms qualifier, methodElement qualifier m, valueElement qualifier digest, rfl, ?_⟩
    obtain ⟨htransforms, hmethod, hvalue⟩ := localPart_newElement qualifier m digest
    have his {c : Element} (hc : c ∈ newElements qualifier m digest) {localPart : String}
        (hl : c.name.localPart = localPart) : c.is signatureSpace localPart = true := by
      simp [Element.is, Xml.Name.is, space_newElements hc, hl]
    exact ⟨his (by simp [newElements]) htransforms, his (by simp [newElements]) hmethod,
      his (by simp [newElements]) hvalue⟩

/-- Covering signed properties completes signed information with at most one reference to
them. -/
theorem completed_coverProperties (h : ((references e).filter hasPropertiesType).length ≤ 1)
    (id : String) (m : DigestMethod) (digest : Octets) :
    Completed e (coverProperties e id m digest) := by
  rw [filter_references] at h
  have hnew := isPropertiesReference_coveringReference e id m digest
  rw [coveringReference, referenceToCover] at hnew
  rw [coverProperties, Element.changeWhere?]
  rcases Element.changeFirst?_cases isPropertiesReference (cover e.name.qualifier id m digest)
    e.children with ⟨hnone, habsent⟩ | ⟨place, hplace⟩
  · have hfind : e.childElements.find? isPropertiesReference = none :=
      Xml.find?_of_noElement habsent
    rw [hfind, Option.getD_none] at hnew
    rw [hnone]
    exact .appended habsent hnew (renewed_cover ..)
  · rw [hplace]
    exact .renewed place.split place.holds (place.noElement_around h) (renewed_cover ..)

/-- The data to sign of an advanced signature is the canonical form of the client's signed
information, completed by a reference to signed properties, under the method that it names. -/
theorem prepare_completes {out : Prepared} (hadvanced : r.profile.isAdvanced = true)
    (h : prepare p now r c a = .ok out) :
    ∃ data e completed method m, r.data = some data ∧ Element.read data = .ok e ∧
      e.findChild? signatureSpace "CanonicalizationMethod" = some method ∧
      method.attribute? "Algorithm" = some (CanonicalMethod.uri m) ∧
      Completed e completed ∧ out.data = Text.encode (completed.canonical m) := by
  obtain ⟨checked, hcheck, -⟩ := Except.bind_eq_ok.mp h
  rw [Except.mapError_eq_ok] at hcheck
  obtain ⟨id, text, m, bs, -, -, hbuilt⟩ := built_of_prepare hadvanced hcheck h
  obtain ⟨hdata, -, -, -, hread, hsignable⟩ := check_eq_ok_iff.mp hcheck
  obtain ⟨method, hmethod, huri⟩ := canonicalMethod_eq_ok_iff.mp hbuilt.method
  exact ⟨_, _, _, method, m, hdata, hread, hmethod, huri,
    completed_coverProperties hsignable.refersOnce _ _ _, hbuilt.data⟩

/-- Signed information with a reference to signed properties, written in capitals, between two
others. -/
def crowdedInformation : Element :=
  let reference := Element.within signatureSpace (some "ds") "Reference"
  (plainInformation.push ((reference.setAttribute "URI" "#old").setAttribute "Type"
    "HTTP://URI.ETSI.ORG/01903#SIGNEDPROPERTIES")).push (reference.setAttribute "URI" "#more")

theorem crowdedInformation_isResolved : crowdedInformation.AllHold Xml.IsResolved [] :=
  (plainInformation_isResolved.push ((allHold_within_ds (by decide) (by decide) _).setAttribute
    Xml.stable_isResolved (by decide) _)).push (allHold_within_ds (by decide) (by decide) _)

theorem read_crowdedInformation :
    Element.read (Text.encode crowdedInformation.render) = .ok crowdedInformation :=
  Element.read_render crowdedInformation_isResolved.isReadable

/-- A request for an advanced signature that comes without an object. -/
def bareRequest (data : Octets) : Request :=
  ⟨some .xml, some data, .epes, some ⟨some "sig", none⟩, none⟩

theorem exists_prepare_bareRequest {data : Octets}
    (hread : Element.read data = .ok crowdedInformation) (now : Time.Instant) (c : Certificate) :
    ∃ out, prepare {} now (bareRequest data) c ecdsaSha256 = .ok out := by
  have hinfo : read data = .ok crowdedInformation := read_eq_ok_iff.mpr ⟨hread, by rfl⟩
  have hessentials : (bareRequest data).essentials = .ok ⟨data, .xml⟩ := rfl
  have hid : advancedId (bareRequest data) = .ok (some "sig") := rfl
  have hobject : readObject {} now (bareRequest data) = .ok none := rfl
  have hcheck := check_of hessentials hid hobject hinfo (a := ecdsaSha256) (by rfl) (by rfl)
  exact exists_prepare c hcheck rfl rfl (fun h => by cases h.1) (by rfl)

/-- For example, the reference in capitals is renewed between the two others. -/
theorem prepare_completes_crowded :
    ∃ out completed, prepare {} ⟨1654724214, 0, by decide⟩
        (bareRequest (Text.encode crowdedInformation.render))
        shortCertificate ecdsaSha256 = .ok out ∧
      Completed crowdedInformation completed ∧
      completed.childElements.length = crowdedInformation.childElements.length ∧
      out.data = Text.encode (completed.canonical ⟨.inclusive10, false⟩) := by
  obtain ⟨out, hout⟩ := exists_prepare_bareRequest read_crowdedInformation
    ⟨1654724214, 0, by decide⟩ shortCertificate
  obtain ⟨data, e, completed, method, m, hdata, hread, hmethod, huri, hcompleted, hcanonical⟩ :=
    prepare_completes (by rfl) hout
  cases Option.some.inj hdata
  cases read_crowdedInformation.symm.trans hread
  cases hmethod
  have hm : m = ⟨.inclusive10, false⟩ :=
    Except.ok.inj ((CanonicalMethod.ofUri_eq_ok_iff.mpr (Option.some.inj huri)).symm.trans (by rfl))
  rw [hm] at hcanonical
  refine ⟨out, completed, hout, hcompleted, ?_, hcanonical⟩
  cases hcompleted with
  | renewed split _ _ _ =>
      rw [Element.childElements, Element.childElements, split]
      simp
  | appended none _ _ =>
      have hfound : (crowdedInformation.childElements.find? isPropertiesReference).isSome := by
        decide
      rw [Element.childElements, Xml.find?_of_noElement none] at hfound
      cases hfound

end Presign.SignedInfo

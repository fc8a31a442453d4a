import Presign.Proofs.Xades.SignedProperties
import Presign.Proofs.Xml.Qualifier
import Presign.Proofs.Xml.Settled

/-!
# Names after an update

An update puts in elements that borrow the qualifiers of the elements around
them: that of the qualifying properties for the XAdES names, and that of the
object for the signature names.  `Object.signatureScope` is the scope where they
are put in.  The update keeps what holds everywhere in an object, if it holds
for new elements in that scope.
-/

namespace Presign.Xades

open Xml (Element Declaration Scope Tag FirstElement Insertable IsResolved IsLoose xadesSpace
  signatureSpace)

/-- New elements of both namespaces satisfy a condition in every scope of a
kind. -/
structure Inserts (N : Scope → Tag → Prop) (B : Scope → Prop)
    (qualifier signatureQualifier : Option String) : Prop where
  stable : Xml.Stable N
  xades : Insertable N B qualifier xadesSpace
  signature : Insertable N B signatureQualifier signatureSpace

section Update

variable {N : Scope → Tag → Prop} {B : Scope → Prop} {qualifier signatureQualifier : Option String}
  {scope : Scope}

namespace Update

theorem allHold_timeElement (u : Update) (h : Inserts N B qualifier signatureQualifier)
    (hB : B scope) : (u.timeElement qualifier).AllHold N scope :=
  (h.xades.allHold (by decide) hB).addText _

theorem allHold_certificateElement (u : Update) (h : Inserts N B qualifier signatureQualifier)
    (hB : B scope) : (u.certificateElement qualifier signatureQualifier).AllHold N scope := by
  -- the scopes inside of the new elements are of the same kind
  have hcert := (h.xades.inside scope xadesSpace qualifier signingCertificateV2).mpr hB
  have hdigest := (h.xades.inside _ xadesSpace qualifier "Cert").mpr hcert
  have hvalue := (h.xades.inside _ xadesSpace qualifier "CertDigest").mpr hdigest
  have method := (h.signature.allHold
    (show Xml.IsNamePart "DigestMethod" by decide) hvalue).setAttribute h.stable
    (show Xml.IsNamePart "Algorithm" ∧ "Algorithm" ≠ "xmlns" by decide) u.method.uri
  have value := (h.signature.allHold (show Xml.IsNamePart "DigestValue" by decide) hvalue).addText
    (Base64.text u.certificateDigest)
  have digest := ((h.xades.allHold (show Xml.IsNamePart "CertDigest" by decide) hdigest).push
    method).push value
  have cert := (h.xades.allHold (show Xml.IsNamePart "Cert" by decide) hcert).push digest
  unfold certificateElement
  cases u.issuerSerial with
  | none => exact (h.xades.allHold (by decide) hB).push cert
  | some bs =>
      have serial := (h.xades.allHold
        (show Xml.IsNamePart "IssuerSerialV2" by decide) hdigest).addText (Base64.text bs)
      exact (h.xades.allHold (by decide) hB).push (cert.push serial)

/-- The digest method stands below three new elements, which have no bearing on
qualifiers. -/
theorem gives_of_certificateElement (u : Update)
    (h : (u.certificateElement qualifier signatureQualifier).AllHold IsResolved scope) :
    scope.Gives signatureQualifier signatureSpace := by
  have hmethod {inside : Scope} {value : Element}
      (hdigest : (((Element.within xadesSpace qualifier "CertDigest").push
        ((Element.within signatureSpace signatureQualifier "DigestMethod").setAttribute
          "Algorithm" u.method.uri)).push value).AllHold IsResolved inside) :
      inside.Gives signatureQualifier signatureSpace := by
    have hchild := hdigest.child (Element.mem_push_of_mem (Element.mem_push ..))
    exact Xml.gives_within_iff.mp ((Xml.isResolved_within_iff (by decide) "DigestMethod").mp
      (Element.allHold_iff.mp hchild).1.holds)
  unfold certificateElement at h
  cases hserial : u.issuerSerial with
  | none =>
      simp only [hserial] at h
      have hcert := h.child (Element.mem_push ..)
      have hgives := hmethod (hcert.child (Element.mem_push ..))
      exact Xml.gives_within_iff.mp (Xml.gives_within_iff.mp hgives)
  | some bs =>
      simp only [hserial] at h
      have hcert := h.child (Element.mem_push ..)
      have hgives := hmethod (hcert.child (Element.mem_push_of_mem (Element.mem_push ..)))
      exact Xml.gives_within_iff.mp (Xml.gives_within_iff.mp hgives)

theorem allHold_signatureProperties (u : Update) (h : Inserts N B qualifier signatureQualifier)
    {e : Element} (he : e.AllHold N scope) (hB : B (e.tag.declarations :: scope)) :
    (u.signatureProperties qualifier signatureQualifier e).AllHold N scope := by
  have others := ((he.removeChildren xadesSpace signingTime).removeChildren xadesSpace
    signingCertificate).removeChildren xadesSpace signingCertificateV2
  exact (others.insertElement (u.allHold_timeElement h hB) 0).insertElement
    (u.allHold_certificateElement h hB) 1

/-- The properties of the signature that an update edits.  Missing ones are
created. -/
def signaturePropertiesToEdit (qualifier : Option String) (e : Element) : Element :=
  (e.findChild? xadesSpace signedSignatureProperties).getD
    (.within xadesSpace qualifier signedSignatureProperties)

theorem allHold_signedProperties (u : Update) (h : Inserts N B qualifier signatureQualifier)
    {e : Element} (he : e.AllHold N scope)
    (hB : B ((signaturePropertiesToEdit qualifier e).tag.declarations ::
      e.tag.declarations :: scope)) :
    (u.signedProperties qualifier signatureQualifier e).AllHold N scope := by
  have hedit : ∀ e' : Element, e'.AllHold N scope → e'.tag.declarations = e.tag.declarations →
      e'.findChild? xadesSpace signedSignatureProperties
        = e.findChild? xadesSpace signedSignatureProperties →
      (e'.changeOrInsert xadesSpace signedSignatureProperties
        (.within xadesSpace qualifier signedSignatureProperties)
        (u.signatureProperties qualifier signatureQualifier)).AllHold N scope := by
    intro e' he' hd hc
    refine he'.changeOrInsert (fun hnone => ?_) fun hchild => ?_
    · rw [hc] at hnone
      rw [signaturePropertiesToEdit, hnone, Option.getD_none] at hB
      rw [hd]
      exact h.xades.allHold (by decide) ((h.xades.inside _ _ _ _).mp hB)
    · rw [hd, hc] at hchild ⊢
      exact u.allHold_signatureProperties h hchild hB
  unfold signedProperties
  dsimp only
  split
  · exact hedit e he rfl rfl
  · exact hedit _ (he.setAttribute h.stable (by decide) u.defaultId) rfl rfl

/-- An update declares nothing. -/
theorem declarations_signedProperties (u : Update) (e : Element) :
    (u.signedProperties qualifier signatureQualifier e).tag.declarations = e.tag.declarations := by
  unfold signedProperties
  dsimp only
  rw [Element.tag_changeOrInsert]
  split <;> rfl

/-- If all names in edited signed properties have their namespaces, then the
qualifiers of new elements stand for these. -/
theorem gives_of_allHold {e : Element} (u : Update)
    (h : (u.signedProperties qualifier signatureQualifier e).AllHold IsResolved scope) :
    let inside : Scope := (signaturePropertiesToEdit qualifier e).tag.declarations ::
      e.tag.declarations :: scope
    inside.Gives qualifier xadesSpace ∧ inside.Gives signatureQualifier signatureSpace := by
  intro inside
  have hproperties := h.child
    (Element.mem_of_findChild? (u.findChild?_signedProperties qualifier signatureQualifier e))
  rw [u.declarations_signedProperties] at hproperties
  have hchildren := u.childElements_signatureProperties qualifier signatureQualifier
    (signaturePropertiesToEdit qualifier e)
  have htime : (u.timeElement qualifier).AllHold IsResolved inside :=
    hproperties.child (Element.mem_of_mem_childElements (hchildren ▸ List.mem_cons_self ..))
  have hcertificate :
      (u.certificateElement qualifier signatureQualifier).AllHold IsResolved inside :=
    hproperties.child (Element.mem_of_mem_childElements
      (hchildren ▸ List.mem_cons_of_mem _ (List.mem_cons_self ..)))
  exact ⟨(Xml.isResolved_within_iff (by decide) signingTime).mp
    (Element.allHold_iff.mp htime).1.holds, u.gives_of_certificateElement hcertificate⟩

end Update

end Update

namespace Object

variable {o : Object}

/-- The scope in which an update puts in the time and the certificate. -/
def signatureScope (o : Object) : Scope :=
  [(Update.signaturePropertiesToEdit o.qualifier o.propertiesToEdit).tag.declarations,
    o.propertiesToEdit.tag.declarations, o.qualifying.tag.declarations,
    o.element.tag.declarations]

theorem mem_qualifying (o : Object) : (o.qualifying : Xml.Node) ∈ o.element.children :=
  Element.mem_of_findChild? o.findChild?_qualifying

theorem is_qualifying (o : Object) : o.qualifying.is xadesSpace qualifyingProperties = true :=
  Element.is_of_findChild? o.findChild?_qualifying

/-- An update keeps what holds in the whole object. -/
theorem allHold_update {N : Scope → Tag → Prop} {B : Scope → Prop} (u : Update)
    (ho : o.element.AllHold N [])
    (h : Inserts N B o.qualifier o.element.name.qualifier) (hB : B o.signatureScope) :
    (o.update u).element.AllHold N [] := by
  obtain ⟨q, hqualifying, hq⟩ := o.exists_update_eq u
  have hhold := (ho.child o.mem_qualifying).setAttribute h.stable
    (show Xml.IsNamePart "Target" ∧ "Target" ≠ "xmlns" by decide) ("#" ++ u.signatureId)
  rw [hq]
  refine ho.replace q ?_
  refine hhold.changeOrInsert (fun hnone => ?_) fun hchild => ?_
  · have hproperties : o.propertiesToEdit = .within xadesSpace o.qualifier signedProperties := by
      rw [propertiesToEdit,
        show o.qualifying.findChild? xadesSpace signedProperties = none from hnone,
        Option.getD_none]
    rw [signatureScope, hproperties, Update.signaturePropertiesToEdit, Element.findChild?,
      Element.childElements, Xml.children_within] at hB
    exact h.xades.allHold (by decide) ((h.xades.inside _ _ _ _).mp ((h.xades.inside _ _ _ _).mp hB))
  · exact u.allHold_signedProperties h hchild hB

/-! ## Qualifiers of new elements -/

/-- The qualifiers that new elements borrow stand for their namespaces where the
update puts in the time and the certificate. -/
def Resolves (o : Object) : Prop :=
  o.signatureScope.Gives o.qualifier xadesSpace ∧
    o.signatureScope.Gives o.element.name.qualifier signatureSpace

/-- What holds of all declarations below the qualifying properties holds of
those around the time and the certificate. -/
theorem declared_signatureScope {p : Declaration → Prop} (h : o.qualifying.DeclaresBelow p)
    (hp : ∀ d : Declaration, d.qualifier = none → p d) :
    (∀ d ∈ o.propertiesToEdit.tag.declarations, p d) ∧
      ∀ d ∈ (Update.signaturePropertiesToEdit o.qualifier
        o.propertiesToEdit).tag.declarations, p d := by
  obtain ⟨hproperties, hinside⟩ := h.childOrNew hp xadesSpace o.qualifier signedProperties
  exact ⟨hproperties, (hinside.childOrNew hp xadesSpace o.qualifier signedSignatureProperties).1⟩

/-- Nothing inside makes the qualifiers that new elements borrow stand for other
namespaces. -/
structure KeepsQualifiers (o : Object) : Prop where
  /-- No element below the object does so with the qualifier of the object. -/
  object : o.element.DeclaresBelow (Declaration.Keeps o.element.name.qualifier signatureSpace)
  /-- No element below the qualifying properties does so with their qualifier. -/
  qualifying : o.qualifying.DeclaresBelow (Declaration.Keeps o.qualifier xadesSpace)

section Names

variable (ho : o.element.AllHold IsResolved [])
include ho

/-- The qualifiers that new elements borrow are written where they stand for
their namespaces. -/
theorem gives_qualifiers :
    Scope.Gives [o.qualifying.tag.declarations, o.element.tag.declarations] o.qualifier xadesSpace ∧
      Scope.Gives [o.element.tag.declarations] o.element.name.qualifier signatureSpace := by
  have hqualifying := o.is_qualifying
  have hobject := o.isObject
  simp only [Element.is, Xml.Name.is, Bool.and_eq_true, beq_iff_eq] at hqualifying hobject
  have hchild := ho.child o.mem_qualifying
  rw [Element.allHold_iff] at hchild
  exact ⟨Xml.gives_of_isResolved hchild.1.holds hqualifying.1,
    Xml.gives_of_isResolved (Element.allHold_iff.mp ho).1.holds hobject.1⟩

/-- The qualifiers that new elements borrow can be written. -/
theorem named_qualifiers :
    (∀ q, o.qualifier = some q → Xml.IsNamePart q) ∧
      ∀ q, o.element.name.qualifier = some q → Xml.IsNamePart q :=
  ⟨(Element.allHold_iff.mp (ho.child o.mem_qualifying)).1.printable.name.2,
    (Element.allHold_iff.mp ho).1.printable.name.2⟩

/-- The qualifiers that new elements borrow stand for their namespaces, if
nothing inside makes them stand for others. -/
theorem KeepsQualifiers.resolves (h : o.KeepsQualifiers) : o.Resolves := by
  have hp {qualifier : Option String} {space : String} (d : Declaration) (hd : d.qualifier = none) :
      d.Keeps qualifier space := fun q _ hq => absurd (hd.symm.trans hq) (by simp)
  obtain ⟨hgives, hgives'⟩ := gives_qualifiers ho
  obtain ⟨hproperties, hsignature⟩ := declared_signatureScope h.qualifying hp
  obtain ⟨hchild, hbelow⟩ := h.object.child o.mem_qualifying
  obtain ⟨hproperties', hsignature'⟩ := declared_signatureScope hbelow hp
  exact ⟨(hgives.cons hproperties).cons hsignature,
    ((hgives'.cons hchild).cons hproperties').cons hsignature'⟩

/-- Where the qualifiers stand for their namespaces, all names of an updated
object have their namespaces. -/
theorem allHold_isResolved_update (u : Update) (h : o.Resolves) :
    (o.update u).element.AllHold IsResolved [] := by
  obtain ⟨hnamed, hnamed'⟩ := named_qualifiers ho
  have hinside : ∀ (scope : Scope) (space' : String) (qualifier' : Option String)
      (localPart' : String),
      (Scope.Gives ((Element.within space' qualifier' localPart').tag.declarations :: scope)
          o.qualifier xadesSpace ∧
        Scope.Gives ((Element.within space' qualifier' localPart').tag.declarations :: scope)
          o.element.name.qualifier signatureSpace) ↔
      (scope.Gives o.qualifier xadesSpace ∧
        scope.Gives o.element.name.qualifier signatureSpace) := by
    intro scope space' qualifier' localPart'
    rw [Xml.gives_within_iff, Xml.gives_within_iff]
  exact allHold_update (B := fun scope => scope.Gives o.qualifier xadesSpace ∧
      scope.Gives o.element.name.qualifier signatureSpace) u ho
    ⟨Xml.stable_isResolved, .isResolved hnamed (by decide) hinside fun _ hB => hB.1,
      .isResolved hnamed' (by decide) hinside fun _ hB => hB.2⟩ h

/-- The qualifier of XML itself stands for another namespace. -/
theorem qualifiers_ne_xml :
    o.qualifier ≠ some "xml" ∧ o.element.name.qualifier ≠ some "xml" := by
  obtain ⟨hgives, hgives'⟩ := gives_qualifiers ho
  constructor
  · intro hq
    exact absurd (Except.ok.inj (hgives _ hq)) (by decide)
  · intro hq
    exact absurd (Except.ok.inj (hgives' _ hq)) (by decide)

/-- In every updated object, the qualifiers stand for something. -/
theorem allHold_isLoose_update (u : Update) (hnames : o.element.IsWellNamed) :
    (o.update u).element.AllHold IsLoose [] := by
  obtain ⟨hnamed, hnamed'⟩ := named_qualifiers ho
  obtain ⟨hxml, hxml'⟩ := qualifiers_ne_xml ho
  obtain ⟨hgives, hgives'⟩ := gives_qualifiers ho
  obtain ⟨hqualifying, hbelow⟩ := hnames.declaresBelow.child o.mem_qualifying
  obtain ⟨hproperties, hsignature⟩ :=
    declared_signatureScope hbelow fun d hd q hq => absurd (hd.symm.trans hq) (by simp)
  have hinside : ∀ (scope : Scope) (space' : String) (qualifier' : Option String)
      (localPart' : String),
      (Scope.Binds ((Element.within space' qualifier' localPart').tag.declarations :: scope)
          o.qualifier ∧
        Scope.Binds ((Element.within space' qualifier' localPart').tag.declarations :: scope)
          o.element.name.qualifier) ↔
      (scope.Binds o.qualifier ∧ scope.Binds o.element.name.qualifier) := by
    intro scope space' qualifier' localPart'
    rw [Xml.binds_within_iff, Xml.binds_within_iff]
  refine allHold_update (B := fun scope => scope.Binds o.qualifier ∧
      scope.Binds o.element.name.qualifier) u (ho.isLoose)
    ⟨Xml.stable_isLoose, .isLoose hnamed (by decide) hxml hinside fun _ hB => hB.1,
      .isLoose hnamed' (by decide) hxml' hinside fun _ hB => hB.2⟩ ⟨?_, ?_⟩
  · exact (hgives.binds.cons hproperties).cons hsignature
  · exact ((hgives'.binds.cons hqualifying).cons hproperties).cons hsignature

end Names

end Object

end Presign.Xades

import Presign.Cms.SigningCertificate
import Presign.Proofs.AlgorithmIdentifier
import Presign.Proofs.Certificate
import Presign.Proofs.Cms.Encoding

/-!
# What a signing certificate attribute refers to

RFC 2634 and RFC 5035 say how the attribute is read.  It has one value, a sequence of
certificate identifiers and maybe one of policies.  In version 1 an identifier is a
digest made with SHA-1 and maybe an issuer with a serial number.  In version 2 a digest
method may stand in front, and SHA-256 is meant if none does.  Both a digest method and
an issuer with a serial number are sequences, so it is the digest between them that
tells which is there.

`references?` reads an attribute this way, strictly.  What is written is read as one
reference to the certificate, with the issuer and the serial number that its fields
have (`references?_attributeFor`).
-/

namespace Presign.Cms.SigningCertificate

open Der
open Der.Strict (Part all?)

/-! ## References -/

/-- A certificate as its issuer names it. -/
structure IssuerSerial where
  /-- The names of the issuer. -/
  names : List Part
  /-- The content of the serial number. -/
  serialNumber : Octets
deriving DecidableEq

/-- A reference to a certificate. -/
structure Reference where
  /-- The method of the digest. -/
  method : DigestMethod
  /-- The digest of the certificate. -/
  digest : Octets
  /-- The issuer and the serial number. -/
  issuerSerial : Option IssuerSerial
deriving DecidableEq

/-! ## Reading -/

/-- Whether an element is a general name.  Inside of a directory name stands a name, which
is a sequence with its own tag. -/
def isGeneralName (p : Part) : Bool :=
  p.tag.toNat / 64 == 2 && p.tag % 32 ≤ 8
    && (p.tag != Tag.context 4 || (Strict.only? Tag.sequence p.content).isSome)

/-- Reads the content of an issuer with a serial number. -/
def IssuerSerial.read? (content : Octets) : Option IssuerSerial := do
  let [issuer, serialNumber] ← all? content | none
  if issuer.tag = Tag.sequence ∧ serialNumber.tag = Tag.integer ∧ serialNumber.content ≠ [] then
    let names ← all? issuer.content
    if names ≠ [] ∧ names.all isGeneralName then return ⟨names, serialNumber.content⟩ else none
  else none

/-- Reads the content of an algorithm identifier that names a digest method. -/
def readMethod? (content : Octets) : Option DigestMethod := do
  let name :: parameters ← all? content | none
  if name.tag = Tag.oid ∧ (parameters = [] ∨ parameters = [⟨Tag.null, []⟩]) then
    DigestMethod.all.find? fun m => m.oid.content == name.content
  else none

/-- Reads a digest, and the issuer with a serial number if it follows. -/
def readDigest? (m : DigestMethod) : List Part → Option Reference
  | [digest] => if digest.tag = Tag.octetString then some ⟨m, digest.content, none⟩ else none
  | [digest, issuerSerial] => do
    if digest.tag = Tag.octetString ∧ issuerSerial.tag = Tag.sequence then
      return ⟨m, digest.content, some (← IssuerSerial.read? issuerSerial.content)⟩
    else none
  | _ => none

/-- Reads a reference of version 1. -/
def readReference? (p : Part) : Option Reference := do
  if p.tag = Tag.sequence then readDigest? .sha1 (← all? p.content) else none

/-- Reads a reference of version 2. -/
def readReferenceV2? (p : Part) : Option Reference := do
  if p.tag = Tag.sequence then
    let parts ← all? p.content
    match parts with
    | method :: rest =>
      if method.tag = Tag.sequence then readDigest? (← readMethod? method.content) rest
      else readDigest? .sha256 parts
    | [] => none
  else none

/-- How references are read under an attribute type. -/
def reader? (type : Octets) : Option (Part → Option Reference) :=
  if type = Oid.signingCertificate.content then some readReference?
  else if type = Oid.signingCertificateV2.content then some readReferenceV2?
  else none

/-- Reads the value of an attribute, given how its references are read. -/
def readValue? (reader : Part → Option Reference) (value : Part) : Option (List Reference) := do
  if value.tag = Tag.sequence then
    let references :: policies ← all? value.content | none
    if references.tag = Tag.sequence ∧ policies.length ≤ 1
        ∧ policies.all (fun p => p.tag == Tag.sequence) then
      (← all? references.content).mapM reader
    else none
  else none

/-- Reads an attribute that refers to certificates. -/
def references? (bs : Octets) : Option (List Reference) := do
  let [fields] ← all? bs | none
  if fields.tag = Tag.sequence then
    let [type, values] ← all? fields.content | none
    if type.tag = Tag.oid ∧ values.tag = Tag.set then
      let [value] ← all? values.content | none
      readValue? (← reader? type.content) value
    else none
  else none

/-! ## Written and read -/

/-- The element that names a digest method is read. -/
theorem exists_readMethod? {m : DigestMethod} (h : m ≠ .sha1) :
    ∃ content, m.algorithmIdentifier.toDer = (⟨Tag.sequence, content⟩ : Part).octets ∧
      readMethod? content = some m := by
  have hbare : m.algorithmIdentifier = .bare m.oid := by
    cases m with
    | sha1 => exact absurd rfl h
    | sha224 | sha256 | sha384 | sha512 => rfl
  have hname : all? ([(⟨Tag.oid, m.oid.content⟩ : Part)].map Part.octets).flatten
      = some [⟨Tag.oid, m.oid.content⟩] := by
    refine Strict.all?_flatten rfl ?_
    cases m <;> decide +kernel
  have hfind : DigestMethod.all.find? (fun n => n.oid.content == m.oid.content) = some m := by
    cases m <;> decide +kernel
  refine ⟨([(⟨Tag.oid, m.oid.content⟩ : Part)].map Part.octets).flatten, ?_, ?_⟩
  · rw [hbare]
    rfl
  · rw [readMethod?, hname, Option.bind_eq_bind, Option.bind_some]
    dsimp only
    rw [if_pos ⟨rfl, Or.inl rfl⟩, hfind]

theorem isGeneralName_directoryName {content name : Octets}
    (h : Strict.only? Tag.sequence content = some name) :
    isGeneralName ⟨Tag.context 4, content⟩ = true := by
  have hclass : ((Tag.context 4).toNat / 64 == 2 && decide (Tag.context 4 % 32 ≤ 8)) = true := by
    decide
  rw [isGeneralName, h, Option.isSome_some, Bool.or_true, Bool.and_true, hclass]

/-- The issuer with the serial number is read. -/
theorem exists_read?_issuerSerial {c : Certificate} {serialNumber name : Octets}
    (hserial : c.serialNumber = element Tag.integer serialNumber) (hne : serialNumber ≠ [])
    (hissuer : c.issuer = element Tag.sequence name) (hsize : c.issuerSerial.length < 2 ^ 32) :
    ∃ content, c.issuerSerial = (⟨Tag.sequence, content⟩ : Part).octets ∧
      IssuerSerial.read? content = some ⟨[⟨Tag.context 4, c.issuer⟩], serialNumber⟩ := by
  let names : List Part := [⟨Tag.context 4, c.issuer⟩]
  let issuer : Part := ⟨Tag.sequence, (names.map Part.octets).flatten⟩
  let fields : List Part := [issuer, ⟨Tag.integer, serialNumber⟩]
  have hoctets : c.issuerSerial = element Tag.sequence (fields.map Part.octets).flatten := by
    rw [Certificate.issuerSerial, hserial]
    rfl
  have hfieldsize : (fields.map Part.octets).flatten.length < 2 ^ 32 := by
    rw [hoctets] at hsize
    exact Nat.lt_trans (length_lt_element _ _) hsize
  have hissuersize : issuer.octets.length < 2 ^ 32 :=
    Nat.lt_of_le_of_lt (length_le_flatten (List.mem_cons_self ..)) hfieldsize
  have hnamessize : (names.map Part.octets).flatten.length < 2 ^ 32 :=
    Nat.lt_trans (length_lt_element _ _) hissuersize
  have hnamesize : c.issuer.length < 2 ^ 32 :=
    calc c.issuer.length < (⟨Tag.context 4, c.issuer⟩ : Part).octets.length :=
          length_lt_element _ _
      _ ≤ (names.map Part.octets).flatten.length := length_le_flatten (List.mem_singleton_self _)
      _ < 2 ^ 32 := hnamessize
  have hfields : all? (fields.map Part.octets).flatten = some fields :=
    Strict.all?_flatten rfl hfieldsize
  have hcontext : Strict.isKnownTag (Tag.context 4) = true := by decide
  have hnames : all? (names.map Part.octets).flatten = some names :=
    Strict.all?_flatten (by rw [List.all_cons, hcontext]; rfl) hnamessize
  have hname : Strict.only? Tag.sequence c.issuer = some name := by
    rw [hissuer] at hnamesize ⊢
    exact Strict.only?_element (by decide) (Nat.lt_trans (length_lt_element _ _) hnamesize)
  have hgeneral : names.all isGeneralName = true := by
    rw [List.all_cons, isGeneralName_directoryName hname]
    rfl
  refine ⟨(fields.map Part.octets).flatten, hoctets, ?_⟩
  rw [IssuerSerial.read?, hfields, Option.bind_eq_bind, Option.bind_some]
  dsimp only [fields]
  rw [if_pos ⟨rfl, rfl, hne⟩, hnames, Option.bind_some,
    if_pos ⟨List.cons_ne_nil _ _, hgeneral⟩]
  rfl

/-- A digest is read with the issuer and the serial number, if they follow it. -/
theorem exists_readDigest? {c : Certificate} {serialNumber name : Octets}
    (hserial : c.serialNumber = element Tag.integer serialNumber) (hne : serialNumber ≠ [])
    (hissuer : c.issuer = element Tag.sequence name) {includeIssuerSerial : Bool}
    (hsize : includeIssuerSerial = true → c.issuerSerial.length < 2 ^ 32) :
    ∃ more : List Part, (if includeIssuerSerial then [c.issuerSerial] else [])
        = more.map Part.octets ∧ more.all (fun p => Strict.isKnownTag p.tag) = true ∧
      ∀ m digest, readDigest? m (⟨Tag.octetString, digest⟩ :: more) = some ⟨m, digest,
        if includeIssuerSerial then some ⟨[⟨Tag.context 4, c.issuer⟩], serialNumber⟩
        else none⟩ := by
  cases includeIssuerSerial with
  | false => exact ⟨[], rfl, rfl, fun m digest => rfl⟩
  | true =>
      obtain ⟨content, hoctets, hread⟩ := exists_read?_issuerSerial hserial hne hissuer (hsize rfl)
      refine ⟨[⟨Tag.sequence, content⟩], ?_, rfl, fun m digest => ?_⟩
      · rw [if_pos rfl, hoctets]
        rfl
      · rw [readDigest?, if_pos ⟨rfl, rfl⟩, hread]
        rfl

/-- How the references of a written attribute are read. -/
def readerFor (m : DigestMethod) : Part → Option Reference :=
  if m = .sha1 then readReference? else readReferenceV2?

theorem reader?_typeFor (m : DigestMethod) :
    reader? (typeFor m).content = some (readerFor m) := by
  have hversions : Oid.signingCertificateV2.content ≠ Oid.signingCertificate.content := by
    decide +kernel
  by_cases h : m = .sha1
  · rw [typeFor, readerFor, if_pos h, if_pos h, reader?, if_pos rfl]
  · rw [typeFor, readerFor, if_neg h, if_neg h, reader?, if_neg hversions, if_pos rfl]

/-- The reference is read. -/
theorem exists_readerFor {c : Certificate} {serialNumber name : Octets} (m : DigestMethod)
    (includeIssuerSerial : Bool) (hserial : c.serialNumber = element Tag.integer serialNumber)
    (hne : serialNumber ≠ []) (hissuer : c.issuer = element Tag.sequence name)
    (hsize : (certificateId m c includeIssuerSerial).length < 2 ^ 32) :
    ∃ content, certificateId m c includeIssuerSerial = (⟨Tag.sequence, content⟩ : Part).octets ∧
      readerFor m ⟨Tag.sequence, content⟩ = some ⟨m, c.digest m,
        if includeIssuerSerial then some ⟨[⟨Tag.context 4, c.issuer⟩], serialNumber⟩
        else none⟩ := by
  have hserialsize : includeIssuerSerial = true → c.issuerSerial.length < 2 ^ 32 := by
    rintro rfl
    exact Nat.lt_trans (length_lt_sequence (by simp)) hsize
  obtain ⟨more, hmore, hknown, hread⟩ := exists_readDigest? hserial hne hissuer hserialsize
  have hcertificate : certificateId m c includeIssuerSerial
      = Der.sequence ((methodElement? m).toList
        ++ ((⟨Tag.octetString, c.digest m⟩ : Part) :: more).map Part.octets) := by
    rw [certificateId, hmore, List.append_assoc]
    rfl
  rw [hcertificate] at hsize ⊢
  have hall : ∀ ps : List Part, ps.all (fun p => Strict.isKnownTag p.tag) = true →
      (Der.sequence (ps.map Part.octets)).length < 2 ^ 32 →
      all? (ps.map Part.octets).flatten = some ps :=
    fun ps htags hlength => Strict.all?_flatten htags
      (Nat.lt_trans (length_lt_element _ _) hlength)
  by_cases hdefault : m = .sha1 ∨ m = .sha256
  · -- the digest comes first
    let parts : List Part := ⟨Tag.octetString, c.digest m⟩ :: more
    rw [methodElement?, if_pos hdefault, Option.toList_none, List.nil_append] at hsize ⊢
    have hparts := hall parts (by rw [List.all_cons, hknown]; rfl) hsize
    refine ⟨(parts.map Part.octets).flatten, rfl, ?_⟩
    rcases hdefault with rfl | rfl
    · rw [readerFor, if_pos rfl, readReference?, if_pos rfl, hparts]
      exact hread _ _
    · rw [readerFor, if_neg (by decide), readReferenceV2?, if_pos rfl, hparts]
      exact hread _ _
  · -- the digest method comes first
    obtain ⟨content, hoctets, hmethod⟩ := exists_readMethod? fun h => hdefault (Or.inl h)
    let parts : List Part := ⟨Tag.sequence, content⟩ :: ⟨Tag.octetString, c.digest m⟩ :: more
    have hfirst : (methodElement? m).toList
          ++ ((⟨Tag.octetString, c.digest m⟩ : Part) :: more).map Part.octets
        = parts.map Part.octets := by
      rw [methodElement?, if_neg hdefault, hoctets]
      rfl
    rw [hfirst] at hsize ⊢
    have hparts := hall parts (by rw [List.all_cons, List.all_cons, hknown]; rfl) hsize
    refine ⟨(parts.map Part.octets).flatten, rfl, ?_⟩
    rw [readerFor, if_neg fun h => hdefault (Or.inl h), readReferenceV2?, if_pos rfl, hparts,
      Option.bind_eq_bind, Option.bind_some]
    dsimp only [parts]
    rw [if_pos rfl, hmethod]
    exact hread _ _

/-- The value with one reference is read. -/
theorem readValue?_sequence {reader : Part → Option Reference} {p : Part} {r : Reference}
    (htag : Strict.isKnownTag p.tag = true) (hreader : reader p = some r)
    (hsize : (Der.sequence [p.octets]).length < 2 ^ 32) :
    readValue? reader ⟨Tag.sequence, Der.sequence [p.octets]⟩ = some [r] := by
  have hflatten : Der.sequence [p.octets] = (⟨Tag.sequence, p.octets⟩ : Part).octets := by
    rw [Der.sequence, List.flatten_singleton]
    rfl
  have hp : p.octets.length < 2 ^ 32 :=
    Nat.lt_trans (length_lt_sequence (List.mem_singleton_self _)) hsize
  rw [hflatten] at hsize ⊢
  rw [readValue?, if_pos rfl, Strict.all?_singleton rfl hsize, Option.bind_eq_bind,
    Option.bind_some]
  dsimp only
  rw [if_pos ⟨rfl, Nat.zero_le 1, rfl⟩, Strict.all?_singleton htag hp, Option.bind_some,
    List.mapM_cons, hreader]
  rfl

/-- An attribute with one value is read as its type says. -/
theorem references?_of {type : Oid} {reader : Part → Option Reference} {value : Part}
    (hreader : reader? type.content = some reader) (htag : Strict.isKnownTag value.tag = true)
    (hsize : (Attribute.of type [value.octets]).encoded.length < 2 ^ 32) :
    references? (Attribute.of type [value.octets]).encoded = readValue? reader value := by
  let values : Part := ⟨Tag.set, value.octets⟩
  let fields : List Part := [⟨Tag.oid, type.content⟩, values]
  have hwhole : (Attribute.of type [value.octets]).encoded
      = (⟨Tag.sequence, (fields.map Part.octets).flatten⟩ : Part).octets := by
    rw [Attribute.of, Der.setOf, List.mergeSort_singleton, List.flatten_singleton]
    rfl
  have hvaluesize := Nat.lt_trans (Attribute.length_value_lt type value.octets) hsize
  rw [hwhole] at hsize ⊢
  have hfields : all? (fields.map Part.octets).flatten = some fields :=
    Strict.all?_flatten rfl (Nat.lt_trans (length_lt_element _ _) hsize)
  rw [references?, Strict.all?_singleton rfl hsize, Option.bind_eq_bind, Option.bind_some]
  dsimp only
  rw [if_pos rfl, hfields, Option.bind_some]
  dsimp only [fields]
  rw [if_pos ⟨rfl, rfl⟩]
  dsimp only [values]
  rw [Strict.all?_singleton htag hvaluesize, Option.bind_some]
  dsimp only
  rw [hreader, Option.bind_eq_bind, Option.bind_some]

/-- The attribute that is written for a certificate is read as one reference.  It has the
digest method and the digest of all octets of the certificate.  If that is asked for,
it has the issuer as one directory name and the serial number, as they stand in the
fields of the certificate. -/
theorem references?_attributeFor {bs : Octets} {c : Certificate} (h : Certificate.ofDer bs = .ok c)
    (m : DigestMethod) (includeIssuerSerial : Bool)
    (hsize : (attributeFor m c includeIssuerSerial).encoded.length < 2 ^ 32) :
    ∃ version serialNumber issuer, Certificate.HasFields bs version serialNumber issuer ∧
      references? (attributeFor m c includeIssuerSerial).encoded = some [⟨m, m.digest bs,
        if includeIssuerSerial then some ⟨[⟨Tag.context 4, issuer⟩], serialNumber⟩ else none⟩] := by
  obtain ⟨version, serialNumber, name, hfields, hencoded, hserial, hne, hissuer⟩ :=
    Certificate.exists_hasFields_of_ofDer h
  refine ⟨version, serialNumber, c.issuer, hfields, ?_⟩
  let ids : Octets := Der.sequence [certificateId m c includeIssuerSerial]
  let value : Part := ⟨Tag.sequence, ids⟩
  have hattribute : attributeFor m c includeIssuerSerial
      = Attribute.of (typeFor m) [value.octets] := by
    rw [attributeFor, Der.sequence, List.flatten_singleton]
    rfl
  rw [hattribute] at hsize ⊢
  -- the reference is inside of the value, and that is inside of the attribute
  have hidssize : ids.length < 2 ^ 32 := Nat.lt_trans (length_lt_element _ _)
    (Nat.lt_trans (Attribute.length_value_lt _ _) hsize)
  have hidsize : (certificateId m c includeIssuerSerial).length < 2 ^ 32 :=
    Nat.lt_trans (length_lt_sequence (List.mem_singleton_self _)) hidssize
  obtain ⟨content, hid, hreader⟩ :=
    exists_readerFor m includeIssuerSerial hserial hne hissuer hidsize
  rw [references?_of (reader?_typeFor m) rfl hsize, ← hencoded]
  dsimp only [value, ids] at hidssize ⊢
  rw [hid] at hidssize ⊢
  exact readValue?_sequence rfl hreader hidssize

/-- Two certificates with the serial number 5, the first without a version.  The attribute
refers to the first by its digest alone, and to the second also by issuer and serial
number. -/
theorem references?_attributeFor_versions :
    let named : List Octets := [[0x02, 0x01, 0x05], [0x30, 0x00], [0x30, 0x02, 0x31, 0x00],
      [0x30, 0x00], [0x30, 0x00], [0x30, 0x00]]
    let first := Der.sequence [Der.sequence named]
    let second := Der.sequence [Der.sequence ([0xA0, 0x03, 0x02, 0x01, 0x02] :: named)]
    let c : Certificate := ⟨first, [0x02, 0x01, 0x05], [0x30, 0x02, 0x31, 0x00], [0x30, 0x00]⟩
    let d : Certificate := { c with encoded := second }
    (Certificate.ofDer first = .ok c ∧ (attributeFor .sha1 c false).encoded.length < 2 ^ 32 ∧
      ∃ version serialNumber issuer, Certificate.HasFields first version serialNumber issuer ∧
        references? (attributeFor .sha1 c false).encoded
          = some [⟨.sha1, DigestMethod.sha1.digest first, none⟩]) ∧
      Certificate.ofDer second = .ok d ∧ (attributeFor .sha384 d true).encoded.length < 2 ^ 32 ∧
      ∃ version serialNumber issuer, Certificate.HasFields second version serialNumber issuer ∧
        references? (attributeFor .sha384 d true).encoded
          = some [⟨.sha384, DigestMethod.sha384.digest second,
              some ⟨[⟨Tag.context 4, issuer⟩], serialNumber⟩⟩] := by
  intro named first second c d
  have hc : Certificate.ofDer first = .ok c := by decide +kernel
  have hd : Certificate.ofDer second = .ok d := by decide +kernel
  have hcsize : (attributeFor .sha1 c false).encoded.length < 2 ^ 32 := by decide +kernel
  have hdsize : (attributeFor .sha384 d true).encoded.length < 2 ^ 32 := by decide +kernel
  exact ⟨⟨hc, hcsize, references?_attributeFor hc .sha1 false hcsize⟩, hd, hdsize,
    references?_attributeFor hd .sha384 true hdsize⟩

end Presign.Cms.SigningCertificate

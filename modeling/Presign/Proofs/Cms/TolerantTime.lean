import Presign.Proofs.Cms.Rules
import Presign.Proofs.Cms.SigningTime
import Presign.Proofs.Time.Tolerance

/-!
# What is read as a short form

The short form of a signing time should be twelve digits and the final letter (`IsStrict`).  Its
reader wants two digits of the year and leaves the rest to a pattern, which is tolerant: blanks may
stand in front of each other field, and the seconds may have one digit.  All this is read, and
nothing else is (`ofDer_utcTime_eq_ok_iff`).  What is read is as it should be exactly if it has
thirteen characters and no blanks (`IsTolerated.isStrict_iff`).

A request has its time of signing read in this way too.  The values of its attributes are cut one
by one, so only the length of the time has to be the shortest there.
-/

namespace Presign.Cms.SigningTime

open Time (Instant Reading Field Pattern IsRow isDigit)
open Time.Rfc3339 (digits)

variable {cs : List Char} {r : Reading} {i : Instant} {bs : Octets}

/-- The fields below the year. -/
def fieldsBelowYear : List Field := [.month, .day, .hour, .minute, .second]

/-- A text that is read as a short form, and the fields that it writes: two digits of the year, and
a row of the other fields. -/
inductive IsTolerated : List Char → Reading → Prop
  | intro {year : Nat} {rest : List Char} {r : Reading} (hfirst : 1950 ≤ year)
      (hlast : year ≤ 2049)
      (hrow : IsRow 'Z' fieldsBelowYear (Field.set .year year Pattern.blank) rest r) :
      IsTolerated (digits 2 year ++ rest) r

/-- A short form as it should be: twelve digits and the final letter. -/
def IsStrict (cs : List Char) : Prop :=
  ∃ ds, cs = ds ++ ['Z'] ∧ ds.length = 12 ∧ ∀ c ∈ ds, isDigit c = true

/-- Characters that all have the value of a digit are digits. -/
theorem isDigit_of_mapM {ns : List Nat} (h : cs.mapM Text.digit? = some ns) :
    cs.length = ns.length ∧ ∀ c ∈ cs, isDigit c = true := by
  induction cs generalizing ns with
  | nil =>
      cases h
      exact ⟨rfl, fun c hc => by cases hc⟩
  | cons c cs ih =>
      rw [List.mapM_cons] at h
      obtain ⟨n, hn, h⟩ := Option.bind_eq_some_iff.mp h
      obtain ⟨ns, hns, h⟩ := Option.bind_eq_some_iff.mp h
      cases h
      obtain ⟨hlength, hall⟩ := ih hns
      refine ⟨congrArg (· + 1) hlength, List.forall_mem_cons.mpr ⟨?_, hall⟩⟩
      rw [isDigit, hn, Option.isSome_some]

/-- Two digits in front are those of a year from 1950 to 2049. -/
theorem exists_year_append {tens ones : Nat} (h : (cs.take 2).mapM Text.digit? = some [tens, ones]) :
    ∃ year rest, 1950 ≤ year ∧ year ≤ 2049 ∧ cs = digits 2 year ++ rest := by
  obtain ⟨hlength, hall⟩ := isDigit_of_mapM h
  obtain ⟨n, hn, hdigits⟩ := Time.Rfc3339.exists_digits hall
  rw [hlength, List.length_cons, List.length_singleton] at hn hdigits
  obtain ⟨year, hfirst, hlast, hyear⟩ := exists_year hn
  refine ⟨year, cs.drop 2, hfirst, hlast, ?_⟩
  rw [hyear, ← hdigits, List.take_append_drop]

/-- The pattern of the short form reads the fields below the year behind all digits of it. -/
theorem read?_digits_append {year : Nat} (hlast : year ≤ 2049) {rest : List Char} :
    (pattern []).read? (digits 4 year ++ rest) = some i
      ↔ ∃ r, IsRow 'Z' fieldsBelowYear (Field.set .year year Pattern.blank) rest r ∧
        r.instant? = some i := by
  have hwidth : year < 10 ^ Field.width .year := by
    change _ < 10000
    omega
  have hread := Pattern.readInto?_field .year Pattern.blank hwidth (pattern []).tail rest
  rw [Pattern.read?, Option.bind_eq_some_iff]
  refine exists_congr fun r => and_congr_left fun _ => ?_
  rw [← Time.Pattern.readInto?_eq_some_iff (by decide)]
  exact iff_of_eq (congrArg (· = some r) hread)

/-- Tolerated texts are read, and nothing else. -/
theorem readShort_eq_ok_iff_tolerated :
    readShort cs = .ok i ↔ ∃ r, IsTolerated cs r ∧ r.instant? = some i := by
  constructor
  · intro h
    have hyear : ∃ tens ones, (cs.take 2).mapM Text.digit? = some [tens, ones] := by
      unfold readShort at h
      split at h
      next tens ones heq => exact ⟨tens, ones, heq⟩
      next => cases h
    obtain ⟨tens, ones, heq⟩ := hyear
    obtain ⟨year, rest, hfirst, hlast, rfl⟩ := exists_year_append heq
    rw [readShort_digits_append hfirst hlast, read?_digits_append hlast] at h
    obtain ⟨r, hrow, hi⟩ := h
    exact ⟨r, .intro hfirst hlast hrow, hi⟩
  · rintro ⟨r, ⟨hfirst, hlast, hrow⟩, hi⟩
    rw [readShort_digits_append hfirst hlast, read?_digits_append hlast]
    exact ⟨r, hrow, hi⟩

/-- A tolerated text is as it should be if it has thirteen characters and no blanks. -/
theorem IsTolerated.isStrict_iff (h : IsTolerated cs r) :
    IsStrict cs ↔ cs.length = 13 ∧ ∀ c ∈ cs, Text.isBlank c = false := by
  constructor
  · rintro ⟨ds, rfl, hlength, hall⟩
    refine ⟨by rw [List.length_append, hlength, List.length_singleton],
      List.forall_mem_append.mpr ⟨fun c hc => Text.isBlank_of_digit? (hall c hc), ?_⟩⟩
    exact List.forall_mem_singleton.mpr (by decide)
  · rintro ⟨hlength, hblanks⟩
    obtain ⟨-, -, hrow⟩ := h
    obtain ⟨ds, rfl, hall⟩ := hrow.exists_digits (List.forall_mem_append.mp hblanks).2
    refine ⟨_, (List.append_assoc ..).symm, ?_,
      List.forall_mem_append.mpr ⟨Time.Rfc3339.isDigit_of_mem_digits, hall⟩⟩
    rw [← List.append_assoc, List.length_append, List.length_singleton] at hlength
    exact Nat.succ_injective hlength

/-! ## Elements -/

theorem readContent_utcTime_eq_ok_iff {content : Octets} :
    readContent Der.Tag.utcTime content = .ok i ↔ ∃ cs r,
      content = Text.encode (String.ofList cs) ∧ IsTolerated cs r ∧ r.instant? = some i := by
  constructor
  · intro h
    unfold readContent at h
    split at h
    next => cases h
    next text htext =>
      rw [if_pos rfl, readShort_eq_ok_iff_tolerated] at h
      obtain ⟨r, htolerated, hi⟩ := h
      refine ⟨text.toList, r, ?_, htolerated, hi⟩
      rw [String.ofList_toList, Text.eq_encode_of_decode? htext]
  · rintro ⟨cs, r, rfl, htolerated, hi⟩
    rw [readContent, Text.decode?_encode]
    dsimp only
    rw [if_pos rfl, String.toList_ofList]
    exact readShort_eq_ok_iff_tolerated.mpr ⟨r, htolerated, hi⟩

/-- An element of the short form is read if its content is a tolerated text, and its reading is an
instant. -/
theorem ofDer_utcTime_eq_ok_iff : ofDer (Der.Tag.utcTime :: bs) = .ok i ↔ ∃ front cs r,
    Der.IsLength front (Text.encode (String.ofList cs)).length ∧
      bs = front ++ Text.encode (String.ofList cs) ∧ IsTolerated cs r ∧ r.instant? = some i := by
  rw [ofDer_eq_ok_iff_content]
  constructor
  · rintro ⟨tag, content, hcontent, hread⟩
    obtain ⟨-, front, hfront, hbs⟩ := Der.content_eq_ok_iff.mp hcontent
    obtain ⟨rfl, rfl⟩ := List.cons.inj hbs
    obtain ⟨cs, r, rfl, hr⟩ := readContent_utcTime_eq_ok_iff.mp hread
    exact ⟨front, cs, r, hfront, rfl, hr⟩
  · rintro ⟨front, cs, r, hfront, rfl, hr⟩
    exact ⟨_, _, Der.content_eq_ok_iff.mpr ⟨by decide, front, hfront, rfl⟩,
      readContent_utcTime_eq_ok_iff.mpr ⟨cs, r, rfl, hr⟩⟩

/-! ## Requests -/

/-- A value as it should be: a short form of twelve digits and the final letter, in the shortest
length. -/
def IsDerForm (v : Octets) : Prop :=
  ∃ cs, IsStrict cs ∧ v = Der.element Der.Tag.utcTime (Text.encode (String.ofList cs))

/-- A value that has a tolerated text as its content, in the shortest length, and is as it should
be if this text has thirteen characters and no blanks. -/
def IsLax (v : Octets) : Prop :=
  ∃ cs r i, v = Der.element Der.Tag.utcTime (Text.encode (String.ofList cs)) ∧
    IsTolerated cs r ∧ r.instant? = some i ∧
    (IsDerForm v ↔ cs.length = 13 ∧ ∀ c ∈ cs, Text.isBlank c = false)

/-- A short form that is read has the shortest length among the values of an attribute. -/
theorem isLax_of_ofDer {b : Attribute} {v : Octets} (hb : Attribute.ofDer bs = .ok b)
    (hv : v ∈ b.values) (h : ofDer v = .ok i) (hhead : v.head? = some Der.Tag.utcTime) :
    IsLax v := by
  obtain ⟨tag, content, hcontent, hread⟩ := ofDer_eq_ok_iff_content.mp h
  obtain rfl := Attribute.eq_element_of_mem_values hb hv hcontent
  obtain rfl : tag = Der.Tag.utcTime := Option.some.inj hhead
  obtain ⟨cs, r, rfl, htolerated, hi⟩ := readContent_utcTime_eq_ok_iff.mp hread
  refine ⟨cs, r, i, rfl, htolerated, hi, ?_⟩
  rw [← htolerated.isStrict_iff]
  constructor
  · rintro ⟨cs', hstrict, heq⟩
    rw [heq, Der.content_element_iff (by decide)] at hcontent
    rwa [String.ofList_injective (Text.encode_inj.mp hcontent.2)] at hstrict
  · intro hstrict
    exact ⟨cs, hstrict, rfl⟩

theorem firstValue_of_prepare {p : Policy} {now : Instant} {request : Request} {c : Certificate}
    {a : SignatureAlgorithm} {out : Prepared} (h : prepare p now request c a = .ok out)
    (hadvanced : request.profile.isAdvanced = false) :
    ∃ data as, request.data = some data ∧ Attributes.ofDer data = .ok as ∧
      as.FirstValue (fun _ v => IsTimely p now v ∧
        (v.head? = some Der.Tag.utcTime → IsLax v)) Oid.signingTime := by
  obtain ⟨data, as, built, hgranted⟩ := exists_granted h
  have htime := hgranted.time
  rw [hadvanced] at htime
  obtain ⟨b, v, hb, hv, htimely⟩ := checkTime_eq_ok_iff.mp htime
  refine ⟨data, as, hgranted.data_eq, hgranted.read, b, v, hb, hv, htimely, ?_⟩
  obtain ⟨i, hi, -⟩ := htimely
  have hexact := Attributes.isExact_of_ofDer hgranted.read b (Attributes.of_find? hb).1
  exact isLax_of_ofDer hexact.ofDer (List.mem_of_mem_head? hv) hi

/-- An element of the short form is read exactly if its content is a tolerated text, and its
reading is an instant.  Such a text is twelve digits and the final letter exactly if it has
thirteen characters and no blanks.  A request that is granted, and not for an advanced signature,
has such a time of signing in the window, in the shortest length, if it has a short form. -/
theorem short_forms_exact (bs : Octets) (i : Instant) (cs : List Char) (r : Reading) (p : Policy)
    (now : Instant) (request : Request) (c : Certificate) (a : SignatureAlgorithm)
    (out : Prepared) :
    (ofDer (Der.Tag.utcTime :: bs) = .ok i ↔ ∃ front cs r,
      Der.IsLength front (Text.encode (String.ofList cs)).length ∧
        bs = front ++ Text.encode (String.ofList cs) ∧ IsTolerated cs r ∧ r.instant? = some i) ∧
    (IsTolerated cs r →
      (IsStrict cs ↔ cs.length = 13 ∧ ∀ c ∈ cs, Text.isBlank c = false)) ∧
    (prepare p now request c a = .ok out → request.profile.isAdvanced = false →
      ∃ data as, request.data = some data ∧ Attributes.ofDer data = .ok as ∧
        as.FirstValue (fun _ v => IsTimely p now v ∧
          (v.head? = some Der.Tag.utcTime → IsLax v)) Oid.signingTime) :=
  ⟨ofDer_utcTime_eq_ok_iff, IsTolerated.isStrict_iff, firstValue_of_prepare⟩

/-- A time of signing with a blank in it. -/
def blankTime : Octets := Der.element Der.Tag.utcTime (Text.encode "22 0608213654Z")

/-- Attributes with this time of signing. -/
def blankAttributes : Attributes :=
  [.of Oid.contentType [Der.oid Oid.idData], .of Oid.signingTime [blankTime],
    .of Oid.messageDigest [[4, 1, 7]]]

/-- The request with these attributes. -/
def blankRequest : Request :=
  ⟨some .pdf, some (Der.element Der.Tag.set blankAttributes.encodings.flatten), .none, none, none⟩

/-- For example, the time with a blank is a tolerated text, and the request with it is granted. -/
theorem short_forms_exact_blank :
    (∃ front cs r, 14 :: Text.encode "22 0608213654Z" = front ++ Text.encode (String.ofList cs) ∧
      IsTolerated cs r ∧
      (IsStrict cs ↔ cs.length = 13 ∧ ∀ c ∈ cs, Text.isBlank c = false)) ∧
    ∃ out data as, prepare {} ⟨1654724214, 0, by decide⟩ blankRequest shortCertificate ecdsaSha256
        = .ok out ∧ blankRequest.data = some data ∧ Attributes.ofDer data = .ok as ∧
      as.FirstValue (fun _ v => IsTimely {} ⟨1654724214, 0, by decide⟩ v ∧
        (v.head? = some Der.Tag.utcTime → IsLax v)) Oid.signingTime := by
  have hread : ofDer (Der.Tag.utcTime :: 14 :: Text.encode "22 0608213654Z")
      = .ok ⟨1654724214, 0, by decide⟩ := by decide +kernel
  have hok : (prepare {} ⟨1654724214, 0, by decide⟩ blankRequest shortCertificate
      ecdsaSha256).isOk = true := by decide +kernel
  obtain ⟨out, h⟩ := Except.isOk_iff.mp hok
  have hexact (cs : List Char) (r : Reading) :=
    short_forms_exact (14 :: Text.encode "22 0608213654Z") ⟨1654724214, 0, by decide⟩ cs r {}
      ⟨1654724214, 0, by decide⟩ blankRequest shortCertificate ecdsaSha256 out
  constructor
  · obtain ⟨front, cs, r, -, hbs, htolerated, -⟩ := (hexact [] Pattern.blank).1.mp hread
    exact ⟨front, cs, r, hbs, htolerated, (hexact cs r).2.1 htolerated⟩
  · obtain ⟨data, as, hrest⟩ := (hexact [] Pattern.blank).2.2 h rfl
    exact ⟨out, data, as, h, hrest⟩

/-- The time with a blank is read, and the request with it is granted, but it is not twelve digits
and the final letter. -/
theorem blankTime_accepted :
    ofDer blankTime = .ok ⟨1654724214, 0, by decide⟩ ∧
    (prepare {} ⟨1654724214, 0, by decide⟩ blankRequest shortCertificate ecdsaSha256).isOk = true ∧
    ¬ IsDerForm blankTime := by
  refine ⟨by decide +kernel, by decide +kernel, ?_⟩
  rintro ⟨cs, ⟨ds, rfl, hlength, -⟩, heq⟩
  have hcontent : Der.content Der.Tag.utcTime elementName blankTime
      = .ok (Text.encode "22 0608213654Z") := Der.content_element (by decide) (by decide) _
  rw [heq, Der.content_element_iff (by decide)] at hcontent
  have hchars := congrArg (fun s => s.toList.length) (Text.encode_inj.mp hcontent.2)
  rw [String.toList_ofList, List.length_append, hlength] at hchars
  cases hchars

end Presign.Cms.SigningTime

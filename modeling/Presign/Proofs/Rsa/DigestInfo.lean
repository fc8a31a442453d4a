import Presign.Proofs.AlgorithmIdentifier
import Presign.Proofs.Rsa.Signature

/-!
# Which values are accepted

A signature of PKCS #1 carries a digest and the name of the algorithm that made it.
Whoever makes a signature under a small public exponent without the private key needs
octets that he may choose, so it matters what else the value may hold.

Names are compared, and parameters are not.  So the value that is accepted for a digest
is not one of two: besides NULL and none, the parameters may be any one element.  All
else is fixed, but for the form of the outer length and for the ways to write a name.
What is inside of a sequence is cut by shortest lengths, nothing follows the digest, and
nothing follows the value in the padded block.

A value that is written is read again, so another digest or another method is not an
error but a difference (`verify_written`).
-/

namespace Presign

namespace Rsa.DigestInfo

/-! ## Reading -/

/-- The elements of an encoding, with the content of the name. -/
def elements (name : Octets) (parameters : Option Octets) (digest : Octets) : List Octets :=
  [Der.sequence (AlgorithmIdentifier.fields name parameters), Der.octetString digest]

/-- A digest and its algorithm are read from the two elements, behind any form of their
length. -/
theorem ofDer_eq_ok_iff {bs : Octets} {d : DigestInfo} :
    ofDer bs = .ok d
      ↔ ∃ front name,
        Der.IsLength front (elements name d.algorithm.parameters d.digest).flatten.length ∧
        bs = Der.Tag.sequence
          :: (front ++ (elements name d.algorithm.parameters d.digest).flatten) ∧
        Oid.ofContent? name = some d.algorithm.algorithm ∧
        ∀ e ∈ d.algorithm.parameters, Der.IsPiece e := by
  rw [ofDer, Except.bind_eq_ok]
  constructor
  · rintro ⟨es, hread, h⟩
    rw [Except.mapError_eq_ok] at hread
    obtain ⟨-, front, hfront, rfl, hes⟩ := Der.readElements_eq_ok_iff_isLength.mp hread
    split at h
    next first second =>
      obtain ⟨a, ha, h⟩ := Except.bind_eq_ok.mp h
      obtain ⟨digest, hdigest, h⟩ := Except.bind_eq_ok.mp h
      cases h
      rw [Except.mapError_eq_ok] at ha hdigest
      obtain ⟨inside, name, hinside, hfirst, ho, hparameters⟩ :=
        AlgorithmIdentifier.ofDer_eq_ok_iff.mp ha
      have hcontent : Der.content Der.Tag.sequence elementName first
          = .ok (AlgorithmIdentifier.fields name a.parameters).flatten :=
        Der.content_eq_ok_iff.mpr ⟨by decide, inside, hinside, hfirst⟩
      have helements : [first, second] = elements name a.parameters digest := by
        rw [Der.eq_element_of_mem_elements? hes (by simp) hcontent,
          Der.eq_element_of_mem_elements? hes (by simp) hdigest]
        rfl
      rw [helements] at hfront ⊢
      exact ⟨front, name, hfront, rfl, ho, hparameters⟩
    next => cases h
  · rintro ⟨front, name, hfront, rfl, ho, hparameters⟩
    obtain ⟨a, digest⟩ := d
    dsimp only at hfront ho hparameters ⊢
    have hshort : ∀ e ∈ elements name a.parameters digest, e.length < 2 ^ 32 := fun e he =>
      Nat.lt_of_le_of_lt (Der.length_le_flatten he) hfront.lt
    have hfields : (AlgorithmIdentifier.fields name a.parameters).flatten.length < 2 ^ 32 :=
      Nat.lt_trans (Der.length_lt_element Der.Tag.sequence _) (hshort _ (List.mem_cons_self ..))
    have hdigest : digest.length < 2 ^ 32 :=
      Nat.lt_trans (Der.length_lt_element Der.Tag.octetString _)
        (hshort _ (List.mem_cons_of_mem _ (List.mem_cons_self ..)))
    have helements : ∀ e ∈ elements name a.parameters digest, Der.IsElement e := by
      intro e he
      simp only [elements, List.mem_cons, List.not_mem_nil, or_false] at he
      rcases he with rfl | rfl
      · exact Der.isElement_element (by decide) hfields
      · exact Der.isElement_element (by decide) hdigest
    refine ⟨_, Except.mapError_eq_ok.mpr (Der.readElements_eq_ok_iff_isLength.mpr
      ⟨by decide, front, hfront, rfl, Der.elements?_flatten helements⟩), ?_⟩
    have halgorithm : AlgorithmIdentifier.ofDer
        (Der.sequence (AlgorithmIdentifier.fields name a.parameters)) = .ok a :=
      AlgorithmIdentifier.ofDer_eq_ok_iff.mpr
        ⟨_, name, Der.isLength_lengthOctets hfields, rfl, ho, hparameters⟩
    have hoctets : Der.readOctetString elementName (Der.octetString digest) = .ok digest :=
      Der.content_element (by decide) hdigest _
    simp only [elements, halgorithm, hoctets]
    rfl

/-! ## Verification -/

/-- A value that is written under a name that can be read is compared. -/
theorem verify_toDer {d : DigestInfo} {expected : Octets} {asked : DigestMethod}
    (hname : Oid.ofContent? d.algorithm.algorithm.content = some d.algorithm.algorithm)
    (hparameters : ∀ e ∈ d.algorithm.parameters, Der.IsPiece e)
    (hsize : (elements d.algorithm.algorithm.content d.algorithm.parameters
      d.digest).flatten.length < 2 ^ 32) :
    verify d.toDer expected asked = .ok (d.isFor expected asked) := by
  have hread : ofDer d.toDer = .ok d :=
    ofDer_eq_ok_iff.mpr ⟨_, _, Der.isLength_lengthOctets hsize, rfl, hname, hparameters⟩
  rw [verify, hread]
  rfl

theorem isFor_eq {made asked : DigestMethod} {parameters : Option Octets}
    {digest expected : Octets} :
    isFor ⟨⟨made.oid, parameters⟩, digest⟩ expected asked
      = decide (digest = expected ∧ made = asked) := by
  rw [Bool.eq_iff_iff]
  simp only [isFor, Bool.and_eq_true, beq_iff_eq, decide_eq_true_eq, DigestMethod.oid_inj]

/-- Any one element may stand in the place of the parameters. -/
theorem verify_eq_true_iff {encoded digest : Octets} {method : DigestMethod} :
    verify encoded digest method = .ok true
      ↔ ∃ front name parameters,
        Der.IsLength front (elements name parameters digest).flatten.length ∧
        encoded = Der.Tag.sequence :: (front ++ (elements name parameters digest).flatten) ∧
        Oid.ofContent? name = some method.oid ∧ ∀ e ∈ parameters, Der.IsPiece e := by
  rw [verify, Except.map_eq_ok]
  simp only [isFor, Bool.and_eq_true, beq_iff_eq]
  constructor
  · rintro ⟨⟨⟨algorithm, parameters⟩, digest⟩, hread, rfl, rfl⟩
    obtain ⟨front, name, h⟩ := ofDer_eq_ok_iff.mp hread
    exact ⟨front, name, parameters, h⟩
  · rintro ⟨front, name, parameters, h⟩
    exact ⟨⟨⟨method.oid, parameters⟩, digest⟩, ofDer_eq_ok_iff.mpr ⟨front, name, h⟩, rfl, rfl⟩

/-- The encoding of a value with some octets in the place of the parameters. -/
def withParameters (method : DigestMethod) (parameters digest : Octets) : Octets :=
  Der.sequence [Der.element Der.Tag.sequence (Der.oid method.oid ++ parameters),
    Der.octetString digest]

/-- Octets in the place of the parameters are accepted if there are none, or if they are
one element. -/
theorem verify_withParameters_iff {method : DigestMethod} {parameters digest : Octets}
    (hsize : (withParameters method parameters digest).length < 2 ^ 32) :
    verify (withParameters method parameters digest) digest method = .ok true
      ↔ parameters = [] ∨ Der.IsPiece parameters := by
  have halgorithm : (Der.element Der.Tag.sequence (Der.oid method.oid ++ parameters)).length
      < 2 ^ 32 := Nat.lt_trans (Der.length_lt_sequence (List.mem_cons_self ..)) hsize
  have hinside := Nat.lt_trans (Der.length_lt_element _ _) halgorithm
  have hcontent := Nat.lt_trans (Der.length_lt_element _ _) hsize
  have hname : method.oid.content.length < 2 ^ 32 :=
    calc method.oid.content.length < (Der.oid method.oid).length := Der.length_lt_element _ _
      _ ≤ (Der.oid method.oid ++ parameters).length := by simp
      _ < 2 ^ 32 := hinside
  constructor
  · intro h
    obtain ⟨front, name, given, hfront, heq, -, hgiven⟩ := verify_eq_true_iff.mp h
    -- both sides are taken apart from the outside: content, first element, name
    have hread : Der.content Der.Tag.sequence elementName (withParameters method parameters digest)
        = .ok (elements name given digest).flatten :=
      Der.content_eq_ok_iff.mpr ⟨by decide, front, hfront, heq⟩
    rw [withParameters, Der.sequence, Der.content_element (by decide) hcontent,
      Except.ok.injEq] at hread
    simp only [elements, List.flatten_cons, List.flatten_nil, List.append_nil] at hread hfront
    have hfields : (AlgorithmIdentifier.fields name given).flatten.length < 2 ^ 32 := by
      have hfirst := Der.length_lt_element Der.Tag.sequence
        (AlgorithmIdentifier.fields name given).flatten
      have hall := hfront.lt
      rw [List.length_append, Der.sequence] at hall
      omega
    have hfirst := (Der.element_append_inj (by decide) hinside hfields hread).1
    rw [AlgorithmIdentifier.fields, List.flatten_cons] at hfirst hfields
    have hgivenName : name.length < 2 ^ 32 := by
      have hoid := Der.length_lt_element Der.Tag.oid name
      rw [List.length_append] at hfields
      omega
    have hrest := (Der.element_append_inj (by decide) hname hgivenName hfirst).2
    cases given with
    | none => exact Or.inl hrest
    | some e =>
        rw [Option.toList_some, List.flatten_singleton] at hrest
        exact Or.inr (hrest ▸ hgiven e rfl)
  · intro h
    have hgiven : ∃ given : Option Octets,
        given.toList.flatten = parameters ∧ ∀ e ∈ given, Der.IsPiece e := by
      rcases h with rfl | h
      · exact ⟨none, rfl, fun e he => by cases he⟩
      · refine ⟨some parameters, List.flatten_singleton .., fun e he => ?_⟩
        cases he
        exact h
    obtain ⟨given, rfl, hgiven⟩ := hgiven
    exact verify_eq_true_iff.mpr ⟨_, method.oid.content, given, Der.isLength_lengthOctets hcontent,
      rfl, method.ofContent?_oid, hgiven⟩

end Rsa.DigestInfo

/-- A signature is accepted if it opens to a block of an accepted value. -/
theorem PublicKey.rsaVerify_eq_true_iff {key : PublicKey} {signature digest : Octets}
    {method : DigestMethod} :
    key.rsaVerify signature digest method = .ok true
      ↔ ∃ count value, Rsa.minPadding ≤ count
        ∧ key.rsaRawVerify signature = .ok (Rsa.block count value)
        ∧ Rsa.DigestInfo.verify value digest method = .ok true := by
  rw [rsaVerify, Except.bind_eq_ok]
  constructor
  · rintro ⟨value, hrecover, hverify⟩
    obtain ⟨count, hcount, hraw⟩ := rsaRecover_eq_ok_iff.mp hrecover
    exact ⟨count, value, hcount, hraw, Except.mapError_eq_ok.mp hverify⟩
  · rintro ⟨count, value, hcount, hraw, hverify⟩
    exact ⟨value, rsaRecover_eq_ok_iff.mpr ⟨count, hcount, hraw⟩,
      Except.mapError_eq_ok.mpr hverify⟩

namespace Rsa.DigestInfo

/-- What is accepted for a digest is a sequence of the name of the digest method, at most
one element as parameters, and the digest, and nothing else.  Whatever the parameters
say, the encoding is accepted.  A signature is accepted if its block carries such a
value. -/
theorem verify_exact :
    (∀ encoded digest method, verify encoded digest method = .ok true →
      ∃ front name parameters,
        Der.IsLength front (elements name parameters digest).flatten.length ∧
        encoded = Der.Tag.sequence :: (front ++ (elements name parameters digest).flatten) ∧
        Oid.ofContent? name = some method.oid ∧ ∀ e ∈ parameters, Der.IsPiece e) ∧
    (∀ method parameters digest, (withParameters method parameters digest).length < 2 ^ 32 →
      (verify (withParameters method parameters digest) digest method = .ok true
        ↔ parameters = [] ∨ Der.IsPiece parameters)) ∧
    ∀ (key : Presign.PublicKey) signature digest method,
      key.rsaVerify signature digest method = .ok true
        ↔ ∃ count value, 8 ≤ count ∧ key.rsaRawVerify signature = .ok (block count value) ∧
          verify value digest method = .ok true :=
  ⟨fun _ _ _ => verify_eq_true_iff.mp, fun _ _ _ => verify_withParameters_iff,
    fun _ _ _ _ => PublicKey.rsaVerify_eq_true_iff⟩

/-- A value that was written for a digest is accepted for this digest and the method that
made it, and for no others.  It is never an error, whether the parameters are NULL or
left out. -/
theorem verify_written (made asked : DigestMethod) (digest expected : Octets) :
    ((elements made.oid.content (some Der.null) digest).flatten.length < 2 ^ 32 →
      verify (of made digest).toDer expected asked
        = .ok (decide (digest = expected ∧ made = asked))) ∧
    ((elements made.oid.content none digest).flatten.length < 2 ^ 32 →
      verify (toDer ⟨.bare made.oid, digest⟩) expected asked
        = .ok (decide (digest = expected ∧ made = asked))) := by
  constructor
  · intro hsize
    have hnull : ∀ e ∈ (of made digest).algorithm.parameters, Der.IsPiece e := by
      intro e he
      cases he
      exact Der.isElement_null.isPiece
    rw [verify_toDer (d := of made digest) made.ofContent?_oid hnull hsize]
    exact congrArg Except.ok isFor_eq
  · intro hsize
    have hnone : ∀ e ∈ (AlgorithmIdentifier.bare made.oid).parameters, Der.IsPiece e := by
      intro e he
      cases he
    rw [verify_toDer (d := ⟨.bare made.oid, digest⟩) made.ofContent?_oid hnone hsize]
    exact congrArg Except.ok isFor_eq

/-- A digest of more octets than a length of one octet tells. -/
def longDigest : Octets := List.replicate 200 7

/-- For example, `longDigest` is accepted for its method.  An empty digest is not the one
that was written, and SHA-256 is not the method. -/
theorem verify_written_long :
    verify (of .sha1 longDigest).toDer longDigest .sha1 = .ok true ∧
      verify (of .sha1 longDigest).toDer [] .sha1 = .ok false ∧
      verify (toDer ⟨.bare DigestMethod.sha1.oid, longDigest⟩) longDigest .sha256 = .ok false := by
  have hnull : (elements DigestMethod.sha1.oid.content (some Der.null) longDigest).flatten.length
      < 2 ^ 32 := by decide +kernel
  have hnone : (elements DigestMethod.sha1.oid.content none longDigest).flatten.length
      < 2 ^ 32 := by decide +kernel
  obtain ⟨hsame, -⟩ := verify_written .sha1 .sha1 longDigest longDigest
  obtain ⟨hother, -⟩ := verify_written .sha1 .sha1 longDigest []
  obtain ⟨-, hmethod⟩ := verify_written .sha1 .sha256 longDigest longDigest
  refine ⟨?_, ?_, ?_⟩
  · simpa using hsame hnull
  · simpa [longDigest] using hother hnull
  · simpa using hmethod hnone

/-- Three octets of no meaning, as parameters. -/
def freeParameters : Octets := Der.octetString [0x61, 0x6E, 0x79]

/-- For example, a value with free parameters is accepted, and it is a sequence of its
parts. -/
theorem verify_exact_free :
    verify (withParameters .sha256 freeParameters [7]) [7] .sha256 = .ok true ∧
    ∃ front name parameters, Der.IsLength front (elements name parameters [7]).flatten.length ∧
      withParameters .sha256 freeParameters [7]
        = Der.Tag.sequence :: (front ++ (elements name parameters [7]).flatten) ∧
      Oid.ofContent? name = some DigestMethod.sha256.oid ∧ ∀ e ∈ parameters, Der.IsPiece e := by
  obtain ⟨hshape, haccepted, -⟩ := verify_exact
  have hpiece : Der.IsPiece freeParameters :=
    (Der.isElement_element (by decide) (by decide)).isPiece
  have hverify := (haccepted .sha256 freeParameters [7] (by decide +kernel)).mpr (Or.inr hpiece)
  exact ⟨hverify, hshape _ _ _ hverify⟩

/-- A digest of twenty octets. -/
def someDigest : Octets := List.replicate 20 0xA1

/-- Three encodings for it: with free parameters, with an outer length of two octets, and
with a group of zero in the name. -/
def otherEncodings : List Octets :=
  [withParameters .sha1 freeParameters someDigest,
    Der.Tag.sequence :: 0x81 :: (of .sha1 someDigest).toDer.tail,
    Der.sequence (elements [0x2B, 0x80, 0x0E, 3, 2, 0x1A] none someDigest)]

/-- They are accepted, and are none of the two standard encodings. -/
theorem verify_otherEncodings :
    (∀ encoded ∈ otherEncodings, verify encoded someDigest .sha1 = .ok true) ∧
      ∀ encoded ∈ otherEncodings,
        encoded ∉ [(of .sha1 someDigest).toDer, toDer ⟨.bare Oid.sha1, someDigest⟩] := by
  decide +kernel

end Rsa.DigestInfo

end Presign

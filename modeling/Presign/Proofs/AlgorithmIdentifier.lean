import Presign.AlgorithmIdentifier
import Presign.Proofs.Der.Value
import Presign.Signature.Algorithm

/-!
# Algorithm identifiers that are read

An algorithm identifier is read from a sequence of a name and parameters.  The
parameters are kept as they are, whatever they say: they are there or not, and all
that is asked of them is that they are cut as one element.

What is written is read again but for its name, which its content need not tell: an
arc of 128 is lost.  The names of the digest methods have no such arc.
-/

namespace Presign

namespace AlgorithmIdentifier

/-- The elements of an encoding, with the content of the name. -/
def fields (name : Octets) (parameters : Option Octets) : List Octets :=
  Der.element Der.Tag.oid name :: parameters.toList

theorem elements?_fields {name : Octets} {parameters : Option Octets}
    (hsize : name.length < 2 ^ 32) (h : ∀ e ∈ parameters, Der.IsPiece e) :
    Der.elements? (fields name parameters).flatten = some (fields name parameters) := by
  have hname : Der.IsElement (Der.element Der.Tag.oid name) :=
    Der.isElement_element (by decide) hsize
  rw [fields, List.flatten_cons, Der.elements?_append hname]
  cases parameters with
  | none => rw [Option.toList_none, List.flatten_nil, Der.elements?, Option.map_some]
  | some e =>
      have he : Der.elements? e = some [e] := h e rfl
      rw [Option.toList_some, List.flatten_singleton, he, Option.map_some]

/-- What is cut behind the name are parameters. -/
theorem isPiece_of_elements? {name e : Octets} (hsize : name.length < 2 ^ 32)
    (h : Der.elements? (fields name (some e)).flatten = some (fields name (some e))) :
    Der.IsPiece e := by
  have hname : Der.IsElement (Der.element Der.Tag.oid name) :=
    Der.isElement_element (by decide) hsize
  rw [fields, List.flatten_cons, Der.elements?_append hname, Option.toList_some,
    List.flatten_singleton] at h
  obtain ⟨es, hes, hcons⟩ := Option.map_eq_some_iff.mp h
  rw [Der.IsPiece, hes, (List.cons.inj hcons).2]

/-- An algorithm identifier is read from its two fields, or from the first alone. -/
theorem ofDer_eq_ok_iff {bs : Octets} {a : AlgorithmIdentifier} :
    ofDer bs = .ok a
      ↔ ∃ front name, Der.IsLength front (fields name a.parameters).flatten.length ∧
        bs = Der.Tag.sequence :: (front ++ (fields name a.parameters).flatten) ∧
        Oid.ofContent? name = some a.algorithm ∧ ∀ e ∈ a.parameters, Der.IsPiece e := by
  rw [ofDer, Except.bind_eq_ok]
  constructor
  · rintro ⟨es, hread, h⟩
    obtain ⟨-, front, hfront, rfl, hes⟩ := Der.readElements_eq_ok_iff_isLength.mp hread
    split at h
    next first =>
      obtain ⟨o, hread, h⟩ := Except.bind_eq_ok.mp h
      cases h
      obtain ⟨name, -, rfl, ho⟩ := Der.exists_element_of_readOid hes (by simp) hread
      exact ⟨front, name, hfront, rfl, ho, fun e he => by cases he⟩
    next first parameters =>
      obtain ⟨o, hread, h⟩ := Except.bind_eq_ok.mp h
      cases h
      obtain ⟨name, hsize, rfl, ho⟩ := Der.exists_element_of_readOid hes (by simp) hread
      refine ⟨front, name, hfront, rfl, ho, fun e he => ?_⟩
      cases he
      exact isPiece_of_elements? hsize hes
    next => cases h
  · rintro ⟨front, name, hfront, rfl, ho, hparameters⟩
    have hsize : name.length < 2 ^ 32 :=
      calc name.length < (Der.element Der.Tag.oid name).length := Der.length_lt_element _ _
        _ ≤ (fields name a.parameters).flatten.length :=
          Der.length_le_flatten (List.mem_cons_self ..)
        _ < 2 ^ 32 := hfront.lt
    have hread := Der.readOid_eq_ok_iff.mpr
      ⟨name, Der.content_element (by decide) hsize elementName, ho⟩
    refine ⟨_, Der.readElements_eq_ok_iff_isLength.mpr
      ⟨by decide, front, hfront, rfl, elements?_fields hsize hparameters⟩, ?_⟩
    obtain ⟨algorithm, parameters⟩ := a
    cases parameters with
    | none => simp [fields, hread, bare, pure, Except.pure]
    | some e => simp [fields, hread, pure, Except.pure]

/-- What is written has the content of its name and its parameters as fields. -/
theorem toDer_eq (a : AlgorithmIdentifier) :
    a.toDer = Der.sequence (fields a.algorithm.content a.parameters) := rfl

theorem isWhole_of_mem_fields {name : Octets} {parameters : Option Octets}
    (h : ∀ e ∈ parameters, Der.IsWhole e) : ∀ e ∈ fields name parameters, Der.IsWhole e := by
  intro e he
  rcases List.mem_cons.mp he with rfl | he
  · exact ⟨Der.Tag.oid, name, by decide, rfl⟩
  · exact h e (Option.mem_toList.mp he)

/-- What is written is read with its parameters, and with the name that the content of
the name tells, if the fields have less than `2 ^ 32` octets together. -/
theorem ofDer_toDer_iff {a b : AlgorithmIdentifier}
    (hparameters : ∀ e ∈ a.parameters, Der.IsWhole e) :
    ofDer a.toDer = .ok b
      ↔ (fields a.algorithm.content a.parameters).flatten.length < 2 ^ 32 ∧
        Oid.ofContent? a.algorithm.content = some b.algorithm ∧ b.parameters = a.parameters := by
  rw [ofDer, toDer_eq, Except.bind_eq_ok, Der.readSequence, Der.sequence]
  simp only [Der.readElements_element_iff (show Der.Tag.sequence % 32 ≠ 31 by decide)
    (isWhole_of_mem_fields hparameters), and_assoc, exists_and_left, exists_eq_left]
  refine and_congr_right fun hsize => ?_
  have hoid : (Der.oid a.algorithm).length < 2 ^ 32 :=
    Nat.lt_of_le_of_lt (Der.length_le_flatten (List.mem_cons_self ..)) hsize
  have hname (parameters : Option Octets) :
      (Der.readOid elementName (Der.oid a.algorithm) >>= fun o => .ok ⟨o, parameters⟩) = .ok b
        ↔ Oid.ofContent? a.algorithm.content = some b.algorithm ∧ b.parameters = parameters := by
    rw [Except.bind_eq_ok]
    simp only [Der.readOid_oid_iff hoid]
    constructor
    · rintro ⟨o, ho, h⟩
      cases h
      exact ⟨ho, rfl⟩
    · rintro ⟨ho, rfl⟩
      exact ⟨b.algorithm, ho, rfl⟩
  obtain ⟨algorithm, parameters⟩ := a
  cases parameters with
  | none => exact hname none
  | some e => exact hname (some e)

end AlgorithmIdentifier

/-! ## Identifiers of algorithms -/

theorem DigestMethod.ofContent?_oid (m : DigestMethod) :
    Oid.ofContent? m.oid.content = some m.oid := by
  cases m <;> decide +kernel

theorem DigestMethod.ofOid?_oid (m : DigestMethod) : ofOid? m.oid = some m := by
  cases m <;> decide

/-- Digest methods have names of their own. -/
theorem DigestMethod.oid_inj {m m' : DigestMethod} : m.oid = m'.oid ↔ m = m' := by
  constructor
  · intro h
    have hm := m.ofOid?_oid
    rw [h, m'.ofOid?_oid, Option.some.injEq] at hm
    exact hm.symm
  · rintro rfl
    rfl

theorem DigestMethod.ofDer_algorithmIdentifier (m : DigestMethod) :
    AlgorithmIdentifier.ofDer m.algorithmIdentifier.toDer = .ok m.algorithmIdentifier := by
  cases m <;> decide +kernel

theorem SignatureAlgorithm.isElement_parameters {a : SignatureAlgorithm} {i : AlgorithmIdentifier}
    (h : a.algorithmIdentifier? = some i) : ∀ e ∈ i.parameters, Der.IsElement e := by
  intro e he
  obtain ⟨text, -, h⟩ := Option.bind_eq_some_iff.mp h
  obtain ⟨o, -, h⟩ := Option.bind_eq_some_iff.mp h
  cases h
  split at he
  · cases he
    exact Der.isElement_null
  · cases he

/-- ECDSA with SHA-256. -/
def ecdsaSha256 : SignatureAlgorithm :=
  ⟨"http://www.w3.org/2001/04/xmldsig-more#ecdsa-sha256", .ec, .sha256, 5,
    some "1.2.840.10045.4.3.2"⟩

end Presign

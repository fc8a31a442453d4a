import Presign.Proofs.Cms.Stability
import Presign.Proofs.Oid
import Presign.Proofs.Preparer.Refusals

/-!
# A new protection and its check

A protection that is made for one signature algorithm may be checked for another one.  It
carries the digest method and the object identifier, each in an identifier of its own, and
the check compares these.  Key type, name, order and parameters are not compared, and no
more are the octets.

What is compared is what has been read, so an object identifier that its content does not
tell is refused even for the algorithm that the protection is made for
(`checkProtectionAttribute_toAttribute`).
-/

namespace Presign.Cms

open Oid (IsPlainArc)

variable {a b : SignatureAlgorithm} {i j : AlgorithmIdentifier}

theorem checkProtectionAttribute_toAttribute_iff (hi : a.algorithmIdentifier? = some i)
    (hj : b.algorithmIdentifier? = some j) :
    checkProtectionAttribute (Protection.of a i).toAttribute b = .ok ()
      ↔ (Protection.fields a.digest.algorithmIdentifier i).flatten.length < 2 ^ 32 ∧
        a.digest = b.digest ∧ Oid.ofContent? i.algorithm.content = some j.algorithm := by
  rw [checkProtectionAttribute_eq_ok_iff, ← protects_of_iff hi hj]
  constructor
  · rintro ⟨v, hv, hprotects⟩
    cases hv
    exact hprotects
  · intro hprotects
    exact ⟨_, rfl, hprotects⟩

/-- A new protection is accepted for an algorithm if it has less than `2 ^ 32` octets inside,
if the digest methods agree and if its object identifier is read as that of the algorithm.
If each arc of the identifier is read back, this means that the two are the same.  If not,
the protection is refused where they are.  In every other case the request is invalid. -/
theorem checkProtectionAttribute_toAttribute (hi : a.algorithmIdentifier? = some i)
    (hj : b.algorithmIdentifier? = some j) :
    (checkProtectionAttribute (Protection.of a i).toAttribute b = .ok ()
      ↔ (Protection.fields a.digest.algorithmIdentifier i).flatten.length < 2 ^ 32 ∧
        a.digest = b.digest ∧ Oid.ofContent? i.algorithm.content = some j.algorithm) ∧
    ((∀ arc ∈ i.algorithm.arcs, IsPlainArc arc) →
      (checkProtectionAttribute (Protection.of a i).toAttribute b = .ok ()
        ↔ (Protection.fields a.digest.algorithmIdentifier i).flatten.length < 2 ^ 32 ∧
          a.digest = b.digest ∧ i.algorithm = j.algorithm)) ∧
    ((∃ arc ∈ i.algorithm.arcs, ¬ IsPlainArc arc) → i.algorithm = j.algorithm →
      checkProtectionAttribute (Protection.of a i).toAttribute b ≠ .ok ()) ∧
    ∀ e, checkProtectionAttribute (Protection.of a i).toAttribute b = .error e → e.IsInvalid := by
  have hexact := checkProtectionAttribute_toAttribute_iff hi hj
  refine ⟨hexact, fun hplain => ?_, ?_, ?_⟩
  · rw [hexact, Oid.ofContent?_content_iff.mpr hplain, Option.some.injEq]
  · rintro ⟨arc, harc, hlost⟩ hsame haccepted
    obtain ⟨-, -, hread⟩ := hexact.mp haccepted
    exact hlost (Oid.ofContent?_content_iff.mp (hsame ▸ hread) arc harc)
  · exact checkProtectionAttribute_failsOnly (exists_algorithmIdentifier_iff.mp ⟨j, hj⟩)

/-- The object identifier 2.5.129.0 with a key type, under a name. -/
def labelled (uri : String) (keyType : KeyType) : SignatureAlgorithm :=
  ⟨uri, keyType, .sha256, 7, some "2.5.129.0"⟩

/-- For example, a protection for an RSA algorithm is accepted for an ECDSA algorithm under
another name, which has the same digest method and the same object identifier. -/
theorem checkProtectionAttribute_labelled :
    (labelled "urn:one" .rsa).algorithmIdentifier? = some (.withNull ⟨2, 5, [129, 0]⟩) ∧
    (labelled "urn:two" .ec).algorithmIdentifier? = some (.bare ⟨2, 5, [129, 0]⟩) ∧
    checkProtectionAttribute
      (Protection.of (labelled "urn:one" .rsa) (.withNull ⟨2, 5, [129, 0]⟩)).toAttribute
      (labelled "urn:two" .ec) = .ok () := by
  have hi : (labelled "urn:one" .rsa).algorithmIdentifier?
      = some (.withNull ⟨2, 5, [129, 0]⟩) := by decide +kernel
  have hj : (labelled "urn:two" .ec).algorithmIdentifier?
      = some (.bare ⟨2, 5, [129, 0]⟩) := by decide +kernel
  obtain ⟨hexact, -⟩ := checkProtectionAttribute_toAttribute hi hj
  exact ⟨hi, hj, hexact.mpr ⟨by decide +kernel, rfl, by decide +kernel⟩⟩

/-- The protection for the arc of 128 is refused for its own algorithm, and accepted for the
object identifier without the arc. -/
theorem checkProtectionAttribute_undivided :
    undividedArc.algorithmIdentifier? = some (.bare ⟨1, 2, [128]⟩) ∧
    checkProtectionAttribute (Protection.of undividedArc (.bare ⟨1, 2, [128]⟩)).toAttribute
      undividedArc ≠ .ok () ∧
    checkProtectionAttribute (Protection.of undividedArc (.bare ⟨1, 2, [128]⟩)).toAttribute
      { undividedArc with oid := some "1.2" } = .ok () := by
  decide +kernel

end Presign.Cms

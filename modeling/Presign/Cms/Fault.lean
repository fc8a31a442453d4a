import Presign.Der.Error
import Presign.Signature.Algorithm

/-!
# Faults of signed attributes

What is wrong with the signed attributes of a request.
-/

namespace Presign.Cms

/-- What is wrong with the signed attributes of a request. -/
inductive Fault where
  /-- The attributes or the protected algorithms cannot be read. -/
  | unreadable (error : Der.Error)
  /-- There is no content type. -/
  | noContentType
  /-- The content type has no value that names one. -/
  | malformedContentType
  /-- The content is not plain data. -/
  | otherContentType
  /-- There is no message digest. -/
  | noMessageDigest
  /-- The time of signing is given where it must not be. -/
  | forbiddenTime
  /-- The time of signing has no value that is a time. -/
  | malformedTime
  /-- There is no time of signing. -/
  | noTime
  /-- Another digest method is protected than that of the algorithm. -/
  | otherDigest (found : Oid) (algorithm : SignatureAlgorithm)
  /-- Another signature algorithm is protected. -/
  | otherSignature (found : Oid) (algorithm : SignatureAlgorithm)
  /-- No signature algorithm is protected. -/
  | noSignature
deriving DecidableEq

/-- The text of a fault. -/
def Fault.message : Fault → String
  | .unreadable error => error.message
  | .noContentType => "Signed attributes input has no contentType attribute"
  | .malformedContentType =>
    "Illegal attribute data in content type attributes in signed attributes input"
  | .otherContentType => "Illegal content type in signed attributes input"
  | .noMessageDigest => "Signed attributes input has no message digest"
  | .forbiddenTime => "Signing time is not allowed in PAdES requests in strict processing"
  | .malformedTime => "Illegal time information in the provided signing time attribute"
  | .noTime => "Signed attributes input has no signing time"
  | .otherDigest found algorithm =>
    "CMS algorithm protection digest algorithm " ++ found.text
      ++ " does not match requested algorithm " ++ algorithm.uri
  | .otherSignature found algorithm =>
    "CMS algorithm protection signature algorithm " ++ found.text
      ++ " does not match requested algorithm " ++ algorithm.uri
  | .noSignature => "CMS algorithm protection does not declare a signature algorithm"

end Presign.Cms
